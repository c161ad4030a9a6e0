import ComponentTags.Proofs.Bytewise.Markup
import ComponentTags.Proofs.Bytewise.Planning
import ComponentTags.Proofs.Element.OpenExpressions
import ComponentTags.Proofs.Plan.Splicing

/-!
Scanning a source and carrying out its plan byte by byte. A check fails in one case alone: a module
ends inside the expression of an attribute, and the last byte, which is cut off in the place of the
brace, belongs to a character of more bytes.
-/

namespace ComponentTags.Bytewise

/-! ### Carrying out plans -/

/-- Whether a new line can start at that offset without a line break of its own. -/
def isLineStart (source : List Char) (offset : Nat) : Checked Bool :=
  if offset = 0 then pure true
  else do
    let front ← slice source 0 offset
    pure (front.getLast? == some '\n')

/-- The splice for the imports of a plan. -/
def importSplice? (source : List Char) (plan : Plan) : Checked (Option Splice) :=
  let lines := plan.imports.map Import.text
  let insert (offset : Nat) (text : String) : Splice :=
    { span := ⟨offset, offset⟩, text := text.toList }
  if plan.imports.isEmpty then pure none
  else
    match plan.site with
    | .offset offset => do
        if ← isLineStart source offset then
          pure (some (insert offset (String.join (lines.map (· ++ "\n")))))
        else
          pure (some (insert offset ("\n" ++ joinTexts "\n" lines)))
    | .setupScript offset => pure (some (insert offset ("\n" ++ joinTexts "\n" lines)))
    | .newSetupScript =>
        pure (some (insert 0 ("<script setup>\n" ++ joinTexts "\n" lines ++ "\n</script>\n\n")))

/-- Applies splices that are in order; the source up to `position` is done. -/
def applyFrom (source : List Char) (position : Nat) : List Splice → Checked (List Char)
  | [] => slice source position (utf8Length source)
  | splice :: rest =>
      if splice.span.start < position || utf8Length source < splice.span.stop then
        applyFrom source position rest
      else do
        let kept ← slice source position splice.span.start
        let others ← applyFrom source splice.span.stop rest
        pure (kept ++ splice.text ++ others)

def apply (plan : Plan) (source : List Char) : Checked (List Char) :=
  if plan.isEmpty then pure source
  else do
    let imports ← importSplice? source plan
    let splices := imports.toList ++ plan.edits.flatMap Edit.splices
    applyFrom source 0 (splices.mergeSort Splice.before)

/-! ### Sources -/

/-- The findings of a source. It is not read at all when no tag is configured. -/
def scan (setting : Setting) (dialect : Dialect) (source : List Char) : Checked Findings :=
  if setting.registry.isEmpty then pure .none
  else
    match dialect with
    | .jsx => do
        let elements ← ofCode source
        let offset ← prologueEnd source
        plan setting (.offset offset) elements
    | .vue => do
        let elements ← ofMarkup source
        match templateBlock? elements with
        | none => pure .none
        | some block =>
            plan setting (setupScriptSite elements)
              (elementsInside block (utf8Length source) elements)

/-- Scans a source and carries out its plan. -/
def rewrite (setting : Setting) (dialect : Dialect) (source : List Char) : Checked (List Char) := do
  let findings ← scan setting dialect source
  apply findings.plan source

/-- In just that case a character is cut, and in every other the computation gives a result. -/
structure CutsExactlyIf {α : Type} (computation : Checked α) (case : Prop) : Prop where
  cuts : case → computation = throw .insideCharacter
  gives : ¬case → ∃ result, computation = pure result

/-- A module ends inside the expression of an attribute, and its last character is not one of ASCII. -/
def IsSevered (source : List Char) : Prop :=
  EndsInExpression source ∧ EndsBeyondAscii source

/--
Where computing byte by byte can fault: in reading a severed module, with a character cut, and nowhere
else. Otherwise it comes to what reading, planning and carrying out plans by characters come to.
-/
structure FaultsOnlyIfSevered (setting : Setting) (source : String) : Prop where
  markup : ofMarkup source.toList = pure (Element.ofMarkup source)
  prologue : prologueEnd source.toList = pure (importOffset source)
  definitions : ∀ element keyword, reference element keyword = pure (element.reference keyword)
  code : CutsExactlyIf (ofCode source.toList) (IsSevered source.toList)
  elements : ofCode source.toList = checked (Element.ofCode source)
  findings : ∀ dialect,
    scan setting dialect source.toList = checked ((setting.scan dialect source).map Prod.fst)
  plans : ∀ dialect findings, scan setting dialect source.toList = pure findings →
    apply findings.plan source.toList = pure (findings.plan.apply source).toList
  rewriting : ∀ dialect, CutsExactlyIf (rewrite setting dialect source.toList)
    (setting.registry.isEmpty = false ∧ dialect = .jsx ∧ IsSevered source.toList)

section Rewriting

variable {source : List Char} {plan : Plan} {position start stop : Nat} {splices : List Splice}

theorem slice_of_isBoundary (hstart : IsBoundary source start) (hstop : IsBoundary source stop)
    (hle : start ≤ stop) : slice source start stop = pure (sliceBytes source start stop) := by
  rw [slice, if_pos ⟨hle, hstop.le⟩, if_pos ⟨hstart, hstop⟩]

theorem isBoundary_zero (source : List Char) : IsBoundary source 0 :=
  ⟨[], source, rfl, rfl⟩

theorem isBoundary_size (source : List Char) : IsBoundary source (utf8Length source) :=
  ⟨source, [], (List.append_nil source).symm, rfl⟩

theorem sliceBytes_zero (source : List Char) (stop : Nat) :
    sliceBytes source 0 stop = takeBytes stop source :=
  dropBytes_append [] _

theorem sliceBytes_size (source : List Char) (start : Nat) :
    sliceBytes source start (utf8Length source) = dropBytes start source := by
  have hall := takeBytes_append source []
  rw [List.append_nil] at hall
  rw [sliceBytes, hall]

theorem isLineStart_eq (h : IsBoundary source start) :
    isLineStart source start = pure (ComponentTags.isLineStart source start) := by
  rw [isLineStart, ComponentTags.isLineStart]
  split
  · next hzero => simp [hzero]
  · next hpos =>
      rw [slice_of_isBoundary (isBoundary_zero source) h (Nat.zero_le _), sliceBytes_zero, pure_bind,
        beq_false_of_ne hpos, Bool.false_or]

theorem importSplice?_eq (hsite : plan.imports ≠ [] → IsBoundary source plan.site.place) :
    importSplice? source plan = pure (plan.importSplice? source) := by
  rw [importSplice?, Plan.importSplice?]
  by_cases hnone : plan.imports = []
  · rw [hnone]
    rfl
  · rw [if_neg (by simpa using hnone), if_neg (by simpa using hnone)]
    cases hplan : plan.site with
    | offset offset =>
        have hplace : IsBoundary source offset := by simpa [hplan, ImportSite.place] using hsite hnone
        dsimp only
        rw [isLineStart_eq hplace, pure_bind]
        split <;> rfl
    | setupScript offset => rfl
    | newSetupScript => rfl

theorem applyFrom_eq (hposition : IsBoundary source position)
    (hspans : ∀ splice ∈ splices, splice.span.IsFor source) :
    applyFrom source position splices = pure (Splice.applyFrom source position splices) := by
  induction splices generalizing position with
  | nil =>
      rw [applyFrom, Splice.applyFrom,
        slice_of_isBoundary hposition (isBoundary_size source) hposition.le, sliceBytes_size]
  | cons splice splices ih =>
      obtain ⟨hspan, hspans⟩ := List.forall_mem_cons.1 hspans
      rw [applyFrom, Splice.applyFrom]
      split
      · exact ih hposition hspans
      · next hfits =>
          simp only [Bool.or_eq_true, decide_eq_true_eq, not_or, Nat.not_lt] at hfits
          have hle := hspan.start_le_stop
          have hstart := hspan.boundaries splice.span.start (by simp [Span.offsets]) (by omega)
          have hstop := hspan.boundaries splice.span.stop (by simp [Span.offsets]) hfits.2
          rw [slice_of_isBoundary hposition hstart hfits.1, pure_bind, ih hstop hspans, pure_bind]

/-- A plan is carried out without a fault if all its spans may have been made for the source. -/
theorem apply_eq {source : String} (hspans : ∀ splice ∈ plan.splices source.toList,
      splice.span.IsFor source.toList)
    (hsite : plan.imports ≠ [] → IsBoundary source.toList plan.site.place) :
    apply plan source.toList = pure (plan.apply source).toList := by
  rw [apply, Plan.apply]
  split
  · rfl
  · rw [importSplice?_eq hsite, pure_bind, String.toList_ofList]
    exact applyFrom_eq (isBoundary_zero _) fun splice hsplice =>
      hspans splice (List.mem_mergeSort.1 hsplice)

/-! ### Scanned plans -/

theorem isFor_of_isWord {span : Span} (h : IsWord source span) : span.IsFor source := by
  obtain ⟨front, word, rest, hsource, hstart, hstop, -⟩ := h.split
  refine ⟨by omega, fun offset hoffset _ => ?_⟩
  rcases (by simpa [Span.offsets] using hoffset : offset = span.start ∨ offset = span.stop) with
    rfl | rfl
  · exact ⟨front, word ++ rest, hsource, hstart⟩
  · exact ⟨front ++ word, rest, by rw [hsource, List.append_assoc],
      by rw [hstop, utf8Length_append]⟩

theorem apply_of_isApart {source : String} (h : plan.IsApart source.toList) :
    apply plan source.toList = pure (plan.apply source).toList := by
  refine apply_eq (fun splice hsplice => isFor_of_isWord (h.words splice hsplice)) fun hsome => ?_
  obtain ⟨splice, hsplice⟩ : ∃ splice, plan.importSplice? source.toList = some splice := by
    rw [Plan.importSplice?, if_neg (by simpa using hsome)]
    exact ⟨_, rfl⟩
  have hword := h.words splice (by simp [Plan.splices, hsplice])
  rw [span_importSplice? hsplice] at hword
  obtain ⟨front, word, rest, hsource, hstart, -⟩ := hword.split
  exact ⟨front, word ++ rest, hsource, hstart⟩

theorem scan_eq (setting : Setting) (dialect : Dialect) (source : String) :
    scan setting dialect source.toList = checked ((setting.scan dialect source).map Prod.fst) := by
  unfold scan Setting.scan
  split
  · rfl
  · cases dialect with
    | jsx =>
        dsimp only
        rw [ofCode_eq]
        cases Element.ofCode source with
        | error severed => rfl
        | ok elements =>
            change (do
              let offset ← prologueEnd source.toList
              plan setting (.offset offset) elements) = _
            rw [prologueEnd_eq, pure_bind, plan_eq]
            rfl
    | vue =>
        dsimp only
        rw [ofMarkup_eq, pure_bind]
        cases templateBlock? (Element.ofMarkup source) with
        | none => rfl
        | some block =>
            dsimp only
            rw [← utf8ByteSize_eq, plan_eq]
            rfl

/-! ### The one fault -/

theorem CutsExactlyIf.bind {α β : Type} {first : Checked α} {next : α → Checked β} {case : Prop}
    (h : CutsExactlyIf first case)
    (hnext : ∀ value, first = pure value → ∃ result, next value = pure result) :
    CutsExactlyIf (first >>= next) case where
  cuts hcase := by
    rw [h.cuts hcase]
    rfl
  gives hcase := by
    obtain ⟨value, hvalue⟩ := h.gives hcase
    obtain ⟨result, hresult⟩ := hnext value hvalue
    exact ⟨result, by rw [hvalue, pure_bind, hresult]⟩

theorem ofCode_cutsExactlyIf (source : String) :
    CutsExactlyIf (ofCode source.toList) (IsSevered source.toList) := by
  rw [ofCode_eq, Element.ofCode, IsSevered, ← severed_iff]
  constructor
  · intro hsevered
    rw [if_pos hsevered]
    rfl
  · intro hwhole
    rw [if_neg hwhole]
    exact ⟨_, rfl⟩

theorem scan_cutsExactlyIf (setting : Setting) (dialect : Dialect) (source : String) :
    CutsExactlyIf (scan setting dialect source.toList)
      (setting.registry.isEmpty = false ∧ dialect = .jsx ∧ IsSevered source.toList) := by
  unfold scan
  cases setting.registry.isEmpty with
  | true => exact ⟨fun h => (Bool.false_ne_true h.1.symm).elim, fun _ => ⟨_, rfl⟩⟩
  | false =>
      cases dialect with
      | jsx =>
          have hplan : ∀ elements, ofCode source.toList = pure elements → ∃ findings, (do
              let offset ← prologueEnd source.toList
              plan setting (.offset offset) elements) = pure findings := fun elements _ =>
            ⟨_, by rw [prologueEnd_eq, pure_bind, plan_eq]⟩
          have hcode := (ofCode_cutsExactlyIf source).bind hplan
          exact ⟨fun h => hcode.cuts h.2.2, fun h => hcode.gives fun hsevered => h ⟨rfl, rfl, hsevered⟩⟩
      | vue =>
          refine ⟨fun h => Dialect.noConfusion h.2.1, fun _ => ?_⟩
          rw [if_neg Bool.false_ne_true, ofMarkup_eq, pure_bind]
          cases templateBlock? (Element.ofMarkup source) with
          | none => exact ⟨_, rfl⟩
          | some block => exact ⟨_, plan_eq _ _ _⟩

theorem apply_of_scan {setting : Setting} {dialect : Dialect} {source : String}
    {findings : Findings} (h : scan setting dialect source.toList = pure findings) :
    apply findings.plan source.toList = pure (findings.plan.apply source).toList := by
  rw [scan_eq] at h
  cases hscan : setting.scan dialect source with
  | error severed =>
      rw [hscan] at h
      cases h
  | ok found =>
      rw [hscan] at h
      cases h
      exact apply_of_isApart (scan_isApart hscan)

/--
**One input shape faults.** Whatever is configured, scanning a source and carrying out its plan goes
through byte by byte without an index out of range or a character cut, unless the source is a module
that ends inside the expression of an attribute with a character beyond ASCII.
-/
theorem faults_only_if_severed (setting : Setting) (source : String) :
    FaultsOnlyIfSevered setting source where
  markup := ofMarkup_eq source
  prologue := prologueEnd_eq source
  definitions := reference_eq
  code := ofCode_cutsExactlyIf source
  elements := ofCode_eq source
  findings dialect := scan_eq setting dialect source
  plans _ _ := apply_of_scan
  rewriting dialect :=
    (scan_cutsExactlyIf setting dialect source).bind fun _ hscan => ⟨_, apply_of_scan hscan⟩

example : ofCode "<A b=\x7bé".toList = throw .insideCharacter := by
  have hsevered : Element.ofCode "<A b=\x7bé" = .error {} := by decide +kernel
  rw [ofCode_eq, hsevered]
  rfl

end Rewriting

end ComponentTags.Bytewise
