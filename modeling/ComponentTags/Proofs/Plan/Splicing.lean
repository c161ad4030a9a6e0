import ComponentTags.Proofs.Plan.Rewriting
import ComponentTags.Proofs.Source.Boundaries
import ComponentTags.Proofs.Text.Encodings
import Mathlib.Data.List.Induction

/-!
Carrying out any plan. Spans of a plan may overlap, touch each other or lie behind the end of the
source: the splices are put in order and chosen one after the other, each that is in the text and
apart from those chosen before; and the chosen ones replace their spans and nothing else.
-/

namespace ComponentTags

instance (first second : Span) : Decidable (first.Apart second) :=
  inferInstanceAs (Decidable (first.stop ≤ second.start ∨ second.stop ≤ first.start))

/-- A span whose ends are in order and, as far as the text goes, between characters of it. -/
structure Span.IsFor (source : List Char) (span : Span) : Prop where
  start_le_stop : span.start ≤ span.stop
  boundaries : ∀ offset ∈ span.offsets, offset ≤ utf8Length source → IsBoundary source offset

/-- The spans of an edit: those of both names, and the place for the attributes of the fallback. -/
def Edit.spans (edit : Edit) : List Span :=
  edit.nameSpan :: (edit.closeNameSpan.toList ++
    match edit.change with
    | .rename _ => []
    | .fallback attrsEnd _ _ => [⟨attrsEnd, attrsEnd⟩])

/-- A plan that may have been made for the text; its imports go into the text. -/
structure Plan.IsFor (source : List Char) (plan : Plan) : Prop where
  edits : ∀ edit ∈ plan.edits, ∀ span ∈ edit.spans, span.IsFor source
  site : IsBoundary source plan.site.place

/-! ### The reference -/

/-- A list in the order of places, in which splices for one place keep the order they came in. -/
structure IsStableOrder (staged ordered : List Splice) : Prop where
  perm : ordered.Perm staged
  sorted : ordered.Pairwise fun first second => first.before second = true
  ties : ∀ span, (ordered.filter fun splice => splice.span = span) =
    staged.filter fun splice => splice.span = span

/-- A splice is chosen if it is in a text of that size and apart from those chosen before. -/
def Splice.chooseNext (size : Nat) (chosen : List Splice) (splice : Splice) : List Splice :=
  if splice.span.stop ≤ size ∧ ∀ other ∈ chosen, other.span.Apart splice.span then
    chosen ++ [splice]
  else chosen

/-- The splices that are chosen, one after the other. -/
def Splice.choose (size : Nat) (splices : List Splice) : List Splice :=
  splices.foldl (Splice.chooseNext size) []

/-- The byte at an offset is in none of some spans. -/
def isOutside (spans : List Span) (offset : Nat) : Bool :=
  ∀ span ∈ spans, offset < span.start ∨ span.stop ≤ offset

/-- The bytes that lie in none of some spans. -/
def bytesOutside (spans : List Span) (bytes : List UInt8) : List UInt8 :=
  (bytes.zipIdx.filter fun byte => isOutside spans byte.2).map Prod.fst

/-- What patches keep of the text that they are for. -/
def Patch.textKept (patches : List Patch) (tail : List Char) : List Char :=
  patches.flatMap Patch.kept ++ tail

/--
The output that chosen splices give: the patches at their places cut the source into what stays,
which is all bytes outside of their spans, and what their texts come for.
-/
structure IsSpliced (source output : List Char) (chosen : List Splice) (patches : List Patch)
    (tail : List Char) : Prop where
  chosen_eq : Patch.splices 0 patches = chosen
  source_eq : source = Patch.textBefore patches tail
  output_eq : output = Patch.textAfter patches tail
  kept_eq : bytesOutside (chosen.map Splice.span) (Utf8.encode source) =
    Utf8.encode (Patch.textKept patches tail)

/-- A splice that is left out starts inside of one chosen before, or ends behind the source. -/
def LeavesOut (size : Nat) (chosen : List Splice) (splice : Splice) : Prop :=
  size < splice.span.stop ∨ ∃ other ∈ chosen,
    other.span.start ≤ splice.span.start ∧ splice.span.start < other.span.stop

/--
How any plan is carried out: its splices are put in order, each one is chosen or left out, and the
chosen ones are spliced into the source; of those for one place the first one staged comes first.
-/
structure Plan.Splices (plan : Plan) (source output : String) (ordered : List Splice)
    (patches : List Patch) (tail : List Char) : Prop where
  order : IsStableOrder (plan.splices source.toList) ordered
  spliced : IsSpliced source.toList output.toList (Splice.choose source.utf8ByteSize ordered) patches
    tail
  choices : ∀ front splice back, ordered = front ++ splice :: back →
    let chosen := Splice.choose source.utf8ByteSize front
    Splice.choose source.utf8ByteSize (front ++ [splice]) = chosen ++ [splice] ∨
      Splice.choose source.utf8ByteSize (front ++ [splice]) = chosen ∧
        LeavesOut source.utf8ByteSize chosen splice
  ties : ∀ span, ((Splice.choose source.utf8ByteSize ordered).filter
    fun splice => splice.span = span).Sublist
      ((plan.splices source.toList).filter fun splice => splice.span = span)

section Choosing

variable {source : List Char} {size position : Nat} {splice : Splice}
  {splices chosen front back : List Splice} {patches : List Patch} {tail : List Char}

theorem choose_concat (size : Nat) (splices : List Splice) (splice : Splice) :
    Splice.choose size (splices ++ [splice]) =
      Splice.chooseNext size (Splice.choose size splices) splice :=
  List.foldl_append

theorem choose_sublist (size : Nat) (splices : List Splice) :
    (Splice.choose size splices).Sublist splices := by
  induction splices using List.reverseRecOn with
  | nil => exact .slnil
  | append_singleton splices splice ih =>
      rw [choose_concat, Splice.chooseNext]
      split
      · exact ih.append (.refl _)
      · exact ih.trans (List.sublist_append_left _ _)

/-- Of splices in order, a later one that is not apart from an earlier one starts inside of it. -/
theorem start_inside_of_not_apart {first second : Splice} (hbefore : first.before second = true)
    (h : ¬first.span.Apart second.span) :
    first.span.start ≤ second.span.start ∧ second.span.start < first.span.stop := by
  rw [Splice.before_iff] at hbefore
  unfold Span.Apart at h
  omega

/-- Of splices in order, those that are apart follow each other. -/
theorem stop_le_of_apart {first second : Splice} (hbefore : first.before second = true)
    (hsecond : second.span.start ≤ second.span.stop) (h : first.span.Apart second.span) :
    first.span.stop ≤ second.span.start := by
  rw [Splice.before_iff] at hbefore
  unfold Span.Apart at h
  omega

/-- Splices were chosen before others in order, and the last of them stops at that place. -/
structure ChosenUpTo (position : Nat) (chosen splices : List Splice) : Prop where
  stop_le : ∀ other ∈ chosen, other.span.stop ≤ position
  last : position = 0 ∨ ∃ other ∈ chosen, other.span.stop = position
  before : ∀ other ∈ chosen, ∀ splice ∈ splices, other.before splice = true

theorem ChosenUpTo.skip (h : ChosenUpTo position chosen (splice :: splices)) :
    ChosenUpTo position chosen splices :=
  ⟨h.stop_le, h.last, fun other hother later hlater =>
    h.before other hother later (List.mem_cons_of_mem _ hlater)⟩

theorem ChosenUpTo.choose (h : ChosenUpTo position chosen (splice :: splices))
    (hsorted : ∀ later ∈ splices, splice.before later = true)
    (hposition : position ≤ splice.span.start) (hspan : splice.span.start ≤ splice.span.stop) :
    ChosenUpTo splice.span.stop (chosen ++ [splice]) splices where
  stop_le := by
    refine List.forall_mem_append.2 ⟨fun other hother => ?_, by simp⟩
    exact Nat.le_trans (h.stop_le other hother) (Nat.le_trans hposition hspan)
  last := .inr ⟨splice, by simp, rfl⟩
  before := List.forall_mem_append.2 ⟨h.skip.before, by simpa using hsorted⟩

/-- A splice is apart from those chosen before when it does not start before they are over. -/
theorem ChosenUpTo.apart_iff (h : ChosenUpTo position chosen (splice :: splices))
    (hspan : splice.span.start ≤ splice.span.stop) :
    (∀ other ∈ chosen, other.span.Apart splice.span) ↔ position ≤ splice.span.start := by
  constructor
  · intro hapart
    rcases h.last with hzero | ⟨other, hother, hlast⟩
    · omega
    · rw [← hlast]
      exact stop_le_of_apart (h.before other hother splice List.mem_cons_self) hspan
        (hapart other hother)
  · intro hposition other hother
    exact .inl (Nat.le_trans (h.stop_le other hother) hposition)

/-- What is chosen by comparing with all splices chosen before is what one pass takes. -/
theorem foldl_eq_taken (h : ChosenUpTo position chosen splices)
    (hsorted : splices.Pairwise fun first second => first.before second = true)
    (hspans : ∀ splice ∈ splices, splice.span.start ≤ splice.span.stop) :
    splices.foldl (Splice.chooseNext (utf8Length source)) chosen =
      chosen ++ Splice.taken source position splices := by
  induction splices generalizing position chosen with
  | nil => rw [List.foldl_nil, Splice.taken, List.append_nil]
  | cons splice splices ih =>
      obtain ⟨hfirst, hsorted⟩ := List.pairwise_cons.1 hsorted
      obtain ⟨hspan, hspans⟩ := List.forall_mem_cons.1 hspans
      rw [List.foldl_cons, Splice.taken, Splice.chooseNext]
      simp only [h.apart_iff hspan]
      by_cases hfits : splice.span.stop ≤ utf8Length source ∧ position ≤ splice.span.start
      · rw [if_pos hfits, if_neg (by simp; omega), ih (h.choose hfirst hfits.2 hspan) hsorted hspans,
          List.append_assoc]
        rfl
      · rw [if_neg hfits, if_pos (by simp; omega), ih h.skip hsorted hspans]

theorem choose_eq_taken (source : List Char)
    (hsorted : splices.Pairwise fun first second => first.before second = true)
    (hspans : ∀ splice ∈ splices, splice.span.start ≤ splice.span.stop) :
    Splice.choose (utf8Length source) splices = Splice.taken source 0 splices :=
  foldl_eq_taken ⟨nofun, .inl rfl, nofun⟩ hsorted hspans

/-- Each splice is chosen, or it is left out for one of the two reasons. -/
theorem choose_or_leavesOut
    (hsorted : (front ++ splice :: back).Pairwise fun first second => first.before second = true) :
    Splice.choose size (front ++ [splice]) = Splice.choose size front ++ [splice] ∨
      Splice.choose size (front ++ [splice]) = Splice.choose size front ∧
        LeavesOut size (Splice.choose size front) splice := by
  rw [choose_concat, Splice.chooseNext]
  split
  · exact .inl rfl
  · next hfits =>
      refine .inr ⟨rfl, ?_⟩
      rcases not_and_or.1 hfits with hstop | hnear
      · exact .inl (by omega)
      · obtain ⟨other, hother, hapart⟩ := not_forall₂.1 hnear
        have hmem : other ∈ front := (choose_sublist size front).mem hother
        have hbefore := (List.pairwise_append.1 hsorted).2.2 other hmem splice List.mem_cons_self
        exact .inr ⟨other, hother, start_inside_of_not_apart hbefore hapart⟩

/-! ### Splices that were taken -/

theorem taken_sublist (source : List Char) (position : Nat) (splices : List Splice) :
    (Splice.taken source position splices).Sublist splices := by
  induction splices generalizing position with
  | nil => exact .slnil
  | cons splice splices ih =>
      rw [Splice.taken]
      split
      · exact (ih position).cons splice
      · exact (ih splice.span.stop).cons_cons splice

theorem fits_of_mem_taken (h : splice ∈ Splice.taken source position splices)
    (hspans : ∀ splice ∈ splices, splice.span.start ≤ splice.span.stop) :
    position ≤ splice.span.start ∧ splice.span.stop ≤ utf8Length source := by
  induction splices generalizing position with
  | nil => cases h
  | cons first splices ih =>
      obtain ⟨hspan, hspans⟩ := List.forall_mem_cons.1 hspans
      rw [Splice.taken] at h
      split at h
      · exact ih h hspans
      · next hfits =>
          simp only [Bool.or_eq_true, decide_eq_true_eq, not_or, Nat.not_lt] at hfits
          rcases List.mem_cons.1 h with rfl | h
          · exact hfits
          · obtain ⟨hstart, hstop⟩ := ih h hspans
            exact ⟨by omega, hstop⟩

theorem pairwise_taken (hspans : ∀ splice ∈ splices, splice.span.start ≤ splice.span.stop) :
    (Splice.taken source position splices).Pairwise fun first second =>
      first.span.stop ≤ second.span.start := by
  induction splices generalizing position with
  | nil => exact .nil
  | cons splice splices ih =>
      obtain ⟨-, hspans⟩ := List.forall_mem_cons.1 hspans
      rw [Splice.taken]
      split
      · exact ih hspans
      · exact .cons (fun later hlater => (fits_of_mem_taken hlater hspans).1) (ih hspans)

/-! ### The order of splices -/

theorem isStableOrder_mergeSort (staged : List Splice) :
    IsStableOrder staged (staged.mergeSort Splice.before) where
  perm := List.mergeSort_perm _ _
  sorted := @List.pairwise_mergeSort _ Splice.before (fun _ _ _ => Splice.before_trans)
    Splice.before_total _
  ties span := by
    have hsame : (staged.filter fun splice => splice.span = span).Pairwise
        fun first second => first.before second = true := by
      refine List.pairwise_of_forall_mem_list fun first hfirst second hsecond => ?_
      have hfirst : first.span = span := by simpa using (List.mem_filter.1 hfirst).2
      have hsecond : second.span = span := by simpa using (List.mem_filter.1 hsecond).2
      rw [Splice.before_iff, hfirst, hsecond]
      exact .inr ⟨rfl, Nat.le_refl _⟩
    have hsublist := @List.sublist_mergeSort _ Splice.before _ (fun _ _ _ => Splice.before_trans)
      Splice.before_total _ hsame List.filter_sublist
    have hkept := hsublist.filter fun splice => decide (splice.span = span)
    rw [List.filter_filter, List.filter_congr fun _ _ => Bool.and_self _] at hkept
    refine (hkept.eq_of_length ?_).symm
    exact ((List.mergeSort_perm staged Splice.before).filter _).length_eq.symm

/-! ### What stays -/

theorem filter_zipIdx_eq_self {bytes : List UInt8} {keeps : Nat → Bool}
    (h : ∀ i, position ≤ i → i < position + bytes.length → keeps i = true) :
    ((bytes.zipIdx position).filter fun byte => keeps byte.2).map Prod.fst = bytes := by
  rw [List.filter_eq_self.2, List.zipIdx_map_fst]
  rintro ⟨byte, i⟩ hmem
  obtain ⟨hle, hlt, -⟩ := List.mem_zipIdx hmem
  exact h i hle hlt

theorem filter_zipIdx_eq_nil {bytes : List UInt8} {keeps : Nat → Bool}
    (h : ∀ i, position ≤ i → i < position + bytes.length → keeps i = false) :
    (bytes.zipIdx position).filter (fun byte => keeps byte.2) = [] := by
  rw [List.filter_eq_nil_iff]
  rintro ⟨byte, i⟩ hmem
  obtain ⟨hle, hlt, -⟩ := List.mem_zipIdx hmem
  exact Bool.eq_false_iff.1 (h i hle hlt)

theorem bytesOutside_from (position : Nat) (patches : List Patch) (tail : List Char) :
    (((Utf8.encode (Patch.textBefore patches tail)).zipIdx position).filter fun byte =>
      isOutside ((Patch.splices position patches).map Splice.span) byte.2).map Prod.fst =
      Utf8.encode (Patch.textKept patches tail) := by
  induction patches generalizing position with
  | nil => exact filter_zipIdx_eq_self fun _ _ _ => by simp [isOutside, Patch.splices]
  | cons patch patches ih =>
      have hlater : ∀ span ∈ (Patch.splices
          (position + utf8Length patch.kept + utf8Length patch.old) patches).map Splice.span,
          position + utf8Length patch.kept + utf8Length patch.old ≤ span.start := by
        intro span hspan
        obtain ⟨splice, hsplice, rfl⟩ := List.mem_map.1 hspan
        exact (start_le_of_mem_splices hsplice).1
      have htext : Patch.textKept (patch :: patches) tail =
          patch.kept ++ Patch.textKept patches tail := by
        simp [Patch.textKept]
      rw [textBefore_cons, Utf8.encode_append, Utf8.encode_append, List.zipIdx_append,
        List.zipIdx_append, List.filter_append, List.filter_append, Utf8.length_encode,
        Utf8.length_encode, Patch.splices, List.map_cons, htext, Utf8.encode_append, List.map_append,
        ← ih (position + utf8Length patch.kept + utf8Length patch.old)]
      congr 1
      · refine filter_zipIdx_eq_self fun i hle hlt => ?_
        rw [Utf8.length_encode] at hlt
        simp only [isOutside, List.forall_mem_cons, decide_eq_true_eq]
        refine ⟨.inl hlt, fun span hspan => .inl ?_⟩
        have := hlater span hspan
        omega
      · rw [filter_zipIdx_eq_nil, List.nil_append]
        · congr 1
          refine List.filter_congr ?_
          rintro ⟨byte, i⟩ hmem
          obtain ⟨hle, -, -⟩ := List.mem_zipIdx hmem
          simp only [isOutside, List.forall_mem_cons, hle, or_true, true_and]
        · intro i hle hlt
          rw [Utf8.length_encode] at hlt
          simp only [isOutside, List.forall_mem_cons, decide_eq_false_iff_not]
          omega

/-! ### Any plan -/

theorem Span.IsFor.cutsOut {span : Span} (h : span.IsFor source)
    (hstop : span.stop ≤ utf8Length source) : CutsOut source span fun _ => True := by
  have hstart := Nat.le_trans h.start_le_stop hstop
  obtain ⟨front, rest, hfront, hstartEq⟩ := h.boundaries _ (by simp [Span.offsets]) hstart
  obtain ⟨front', rest', hfront', hstopEq⟩ := h.boundaries _ (by simp [Span.offsets]) hstop
  have hle : utf8Length front ≤ utf8Length front' := by
    rw [← hstartEq, ← hstopEq]
    exact h.start_le_stop
  obtain ⟨between, rfl, rfl⟩ := exists_between (hfront.symm.trans hfront') hle
  exact ⟨front, between, rest', hfront, hstartEq, by rw [hstopEq, utf8Length_append], trivial⟩

theorem span_mem_spans {edit : Edit} (h : splice ∈ edit.splices) : splice.span ∈ edit.spans := by
  unfold Edit.splices at h
  unfold Edit.spans
  cases hchange : edit.change with
  | rename identifier =>
      rw [hchange] at h
      simp only [List.mem_cons, List.mem_map] at h
      rcases h with rfl | ⟨span, hspan, rfl⟩
      · exact List.mem_cons_self
      · exact List.mem_cons_of_mem _ (List.mem_append_left _ hspan)
  | fallback attrsEnd tag value =>
      rw [hchange] at h
      simp only [List.mem_cons, List.mem_map] at h
      rcases h with rfl | rfl | ⟨span, hspan, rfl⟩
      · exact List.mem_cons_self
      · exact List.mem_cons_of_mem _ (List.mem_append_right _ List.mem_cons_self)
      · exact List.mem_cons_of_mem _ (List.mem_append_left _ hspan)

theorem Plan.IsFor.isFor_splices {plan : Plan} (h : plan.IsFor source) :
    ∀ splice ∈ plan.splices source, splice.span.IsFor source := by
  intro splice hsplice
  rw [Plan.splices, List.mem_append, Option.mem_toList, List.mem_flatMap] at hsplice
  rcases hsplice with himports | ⟨edit, hedit, hsplice⟩
  · rw [span_importSplice? himports]
    refine ⟨Nat.le_refl _, fun offset hoffset _ => ?_⟩
    obtain rfl : offset = plan.site.place := by simpa [Span.offsets] using hoffset
    exact h.site
  · exact h.edits edit hedit _ (span_mem_spans hsplice)

theorem apply_of_isEmpty {plan : Plan} (source : String) (h : plan.isEmpty = true) :
    plan.apply source = source := by
  rw [Plan.apply, if_pos h]

/-- Splices in order with spans for the text cut it up; those that are chosen come out. -/
theorem exists_isSpliced
    (hsorted : splices.Pairwise fun first second => first.before second = true)
    (hspans : ∀ splice ∈ splices, splice.span.IsFor source) :
    ∃ patches tail, IsSpliced source (Splice.applyFrom source 0 splices)
      (Splice.choose (utf8Length source) splices) patches tail := by
  have hordered : ∀ splice ∈ splices, splice.span.start ≤ splice.span.stop :=
    fun splice hsplice => (hspans splice hsplice).start_le_stop
  have hcuts : ∀ splice ∈ Splice.taken source 0 splices, CutsOut source splice.span fun _ => True := by
    intro splice hsplice
    exact (hspans splice ((taken_sublist source 0 splices).mem hsplice)).cutsOut
      (fits_of_mem_taken hsplice hordered).2
  obtain ⟨patches, tail, hpatches, htext, -⟩ := exists_patches hcuts (pairwise_taken hordered)
    (List.nil_append source).symm fun _ _ => Nat.zero_le _
  have hzero : utf8Length [] = 0 := rfl
  rw [hzero] at hpatches
  refine ⟨patches, tail, ?_, htext, ?_, ?_⟩
  · rw [hpatches, choose_eq_taken source hsorted hordered]
  · rw [← applyFrom_taken, ← hpatches, htext]
    exact applyFrom_splices [] patches tail
  · rw [choose_eq_taken source hsorted hordered, ← hpatches, bytesOutside, htext]
    exact bytesOutside_from 0 patches tail

/--
**Carrying out any plan.** A plan that may have been made for the source is carried out as the
reference says, whether or not its spans overlap or go beyond the source; and a plan without edits
and imports changes nothing.
-/
theorem plan_spliced (plan : Plan) (source : String) (h : plan.IsFor source.toList) :
    (∃ ordered patches tail, plan.Splices source (plan.apply source) ordered patches tail) ∧
      (plan.isEmpty = true → plan.apply source = source) := by
  refine ⟨?_, apply_of_isEmpty source⟩
  have horder := isStableOrder_mergeSort (plan.splices source.toList)
  have hspans : ∀ splice ∈ plan.ordered source, splice.span.IsFor source.toList :=
    fun splice hsplice => h.isFor_splices splice (horder.perm.mem_iff.1 hsplice)
  obtain ⟨patches, tail, hspliced⟩ := exists_isSpliced horder.sorted hspans
  refine ⟨plan.ordered source, patches, tail, horder, ?_, ?_, ?_⟩
  · rw [apply_eq, String.toList_ofList, utf8ByteSize_eq]
    exact hspliced
  · intro front splice back hsplit
    have hsorted : (plan.ordered source).Pairwise fun first second => first.before second = true :=
      horder.sorted
    rw [hsplit] at hsorted
    exact choose_or_leavesOut hsorted
  · intro span
    rw [← horder.ties span]
    exact (choose_sublist _ _).filter _

/-- A plan with a closing name that goes into another span, one that goes beyond the source, and one
that is carried out. -/
def loosePlan : Plan where
  imports := [{ name := "I", specifier := "m" }]
  edits :=
    [{ nameSpan := ⟨3, 5⟩, closeNameSpan := some ⟨4, 7⟩, change := .rename "Cc" },
      { nameSpan := ⟨5, 5⟩, closeNameSpan := some ⟨7, 20⟩, change := .fallback 5 "Ab" "" },
      { nameSpan := ⟨8, 9⟩, closeNameSpan := some ⟨12, 13⟩, change := .rename "Dd" }]
  site := .offset 2

def looseSource : String :=
  "é<Ab/><C></C>x"

theorem loosePlan_isFor : loosePlan.IsFor looseSource.toList := by
  have hspans : ∀ edit ∈ loosePlan.edits, ∀ span ∈ edit.spans, span.start ≤ span.stop ∧
      ∀ offset ∈ span.offsets, offset ≤ utf8Length looseSource.toList →
        IsBoundary looseSource.toList offset := by
    decide
  exact ⟨fun edit hedit span hspan => ⟨(hspans edit hedit span hspan).1,
    (hspans edit hedit span hspan).2⟩, by decide⟩

theorem plan_spliced_of_loose :
    loosePlan.IsFor looseSource.toList ∧
      loosePlan.apply looseSource =
        "é\nimport I from \"m\";<CcCloudComponentDefError tagName=\"Ab\" defValue=\"\"/><Dd></Dd>x" ∧
      ∃ ordered patches tail, loosePlan.Splices looseSource (loosePlan.apply looseSource) ordered
        patches tail := by
  refine ⟨loosePlan_isFor, ?_, (plan_spliced loosePlan looseSource loosePlan_isFor).1⟩
  apply String.toList_injective
  rw [toList_apply_of_pairwise (by decide)]
  decide +kernel

end Choosing

end ComponentTags
