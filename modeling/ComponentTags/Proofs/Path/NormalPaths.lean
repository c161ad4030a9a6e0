import ComponentTags.Proofs.Disk.Places
import ComponentTags.Proofs.Path.Parents

/-!
Normal paths. A path is walked one step after another; at the root there is no way further up. The
normal form of a path goes up first and then down, and walking it leads to the same place from
everywhere. So does a path that is made absolute, from the place of the base on.
-/

namespace ComponentTags

namespace PathStep

/-- Where one step leads from a place. -/
def go (spot : Spot) : PathStep → Spot
  | root => []
  | here => spot
  | parent => spot.tail
  | name text => text :: spot

/-- The steps that lead from the root or not, so many times up, and down again along some names. -/
def upAndDown (isRooted : Bool) (ups : Nat) (names : List String) : List PathStep :=
  (if isRooted then [root] else []) ++ (List.replicate ups parent ++ names.map name)

/-- A step that goes up or down, which every part of a path is that is not idle. -/
inductive IsMove : PathStep → Prop where
  | up : IsMove parent
  | down {text : String} (htext : IsPlainName text) : IsMove (name text)

variable {step : PathStep} {steps : List PathStep} {isRooted : Bool} {ups : Nat}
  {names : List String}

/-! ### Normal steps lead to the same place -/

theorem foldl_go_push (spot : Spot) (done : List PathStep) (step : PathStep) :
    (push done step).foldl go spot = go (done.foldl go spot) step := by
  cases step with
  | root => exact List.foldl_concat ..
  | here => rfl
  | name text => exact List.foldl_concat ..
  | parent =>
      rw [push]
      split
      · next text hlast =>
          obtain ⟨front, rfl⟩ := List.getLast?_eq_some_iff.1 hlast
          rw [List.dropLast_concat, List.foldl_concat]
          rfl
      · rw [List.foldl_concat]

theorem foldl_go_foldl_push (spot : Spot) (done steps : List PathStep) :
    (steps.foldl push done).foldl go spot = steps.foldl go (done.foldl go spot) := by
  induction steps generalizing done with
  | nil => rfl
  | cons step steps ih => rw [List.foldl_cons, ih, foldl_go_push, List.foldl_cons]

/-- However steps are resolved, they lead where they led. -/
theorem foldl_go_normalize (spot : Spot) (steps : List PathStep) :
    (normalize steps).foldl go spot = steps.foldl go spot :=
  foldl_go_foldl_push spot [] steps

/-! ### Normal steps go up and then down -/

theorem upAndDown_concat (isRooted : Bool) (ups : Nat) (names : List String) (text : String) :
    upAndDown isRooted ups (names ++ [text]) = upAndDown isRooted ups names ++ [name text] := by
  simp [upAndDown]

theorem upAndDown_succ (isRooted : Bool) (ups : Nat) :
    upAndDown isRooted (ups + 1) [] = upAndDown isRooted ups [] ++ [parent] := by
  simp [upAndDown, List.replicate_succ']

theorem push_name (isRooted : Bool) (ups : Nat) (names : List String) (text : String) :
    push (upAndDown isRooted ups names) (name text) = upAndDown isRooted ups (names ++ [text]) := by
  rw [upAndDown_concat]
  rfl

/-- A step up takes back the last name. -/
theorem push_parent_concat (isRooted : Bool) (ups : Nat) (names : List String) (text : String) :
    push (upAndDown isRooted ups (names ++ [text])) parent = upAndDown isRooted ups names := by
  rw [upAndDown_concat, push, List.getLast?_concat, List.dropLast_concat]

/-- Without a name to take back, a step up stays. -/
theorem push_parent (isRooted : Bool) (ups : Nat) :
    push (upAndDown isRooted ups []) parent = upAndDown isRooted (ups + 1) [] := by
  have hlast : ∀ text, (upAndDown isRooted ups []).getLast? ≠ some (name text) := by
    intro text
    cases ups with
    | zero => cases isRooted <;> simp [upAndDown]
    | succ ups => simp [upAndDown_succ]
  rw [upAndDown_succ, push]
  split
  · next text hname => exact absurd hname (hlast text)
  · rfl

theorem IsMove.push_upAndDown (isRooted : Bool) (hstep : step.IsMove)
    (hnames : ∀ name ∈ names, IsPlainName name) :
    ∃ ups' names', push (upAndDown isRooted ups names) step = upAndDown isRooted ups' names' ∧
      ∀ name ∈ names', IsPlainName name := by
  cases hstep with
  | down htext =>
      refine ⟨ups, _, push_name isRooted ups names _, fun name hname => ?_⟩
      rcases List.mem_append.1 hname with hmem | hmem
      · exact hnames name hmem
      · rwa [List.mem_singleton.1 hmem]
  | up =>
      rcases List.eq_nil_or_concat names with rfl | ⟨front, text, rfl⟩
      · exact ⟨ups + 1, [], push_parent isRooted ups, nofun⟩
      · refine ⟨ups, front, ?_, fun name hname => hnames name ?_⟩
        · rw [List.concat_eq_append, push_parent_concat]
        · rw [List.concat_eq_append]
          exact List.mem_append_left _ hname

/-- Moves keep normal steps normal. -/
theorem foldl_push_upAndDown (hsteps : ∀ step ∈ steps, step.IsMove)
    (hnames : ∀ name ∈ names, IsPlainName name) :
    ∃ ups' names', steps.foldl push (upAndDown isRooted ups names) =
      upAndDown isRooted ups' names' ∧ ∀ name ∈ names', IsPlainName name := by
  induction steps generalizing ups names with
  | nil => exact ⟨ups, names, rfl, hnames⟩
  | cons step steps ih =>
      obtain ⟨hstep, hrest⟩ := List.forall_mem_cons.1 hsteps
      obtain ⟨ups', names', hpushed, hnames'⟩ := hstep.push_upAndDown isRooted hnames
      rw [List.foldl_cons, hpushed]
      exact ih hrest hnames'

/-- Nothing is resolved in steps that go up and then down. -/
theorem normalize_upAndDown (isRooted : Bool) (ups : Nat) (names : List String) :
    normalize (upAndDown isRooted ups names) = upAndDown isRooted ups names := by
  have hups : ∀ k, normalize (upAndDown isRooted k []) = upAndDown isRooted k [] := by
    intro k
    induction k with
    | zero => cases isRooted <;> rfl
    | succ k ih =>
        rw [normalize] at ih ⊢
        conv_lhs => rw [upAndDown_succ]
        rw [List.foldl_concat, ih, push_parent]
  induction names using List.reverseRecOn with
  | nil => exact hups ups
  | append_singleton names text ih =>
      rw [normalize] at ih ⊢
      conv_lhs => rw [upAndDown_concat]
      rw [List.foldl_concat, ih, push_name]

theorem IsMove.ofPart?_text (hstep : step.IsMove) : ofPart? step.text = some step := by
  cases hstep with
  | up => rfl
  | down htext => simp [ofPart?, PathStep.text, htext.ne_empty, htext.ne_here, htext.ne_parent]

end PathStep

namespace Path

open PathStep

variable {path base : Path} {step : PathStep} {steps : List PathStep}

/-- Where a path leads from a place, if nothing is in the way. -/
def lead (path : Path) (spot : Spot) : Spot :=
  path.steps.foldl go spot

/-- A path whose steps go up first and then down; nothing else is up, and no step stays. -/
def IsNormal (path : Path) : Prop :=
  ∃ ups names, path.steps = upAndDown path.isAbsolute ups names

/-! ### The steps of a path -/

theorem isMove_of_mem_parts {part : String} (hpart : part ∈ path.parts)
    (hstep : ofPart? part = some step) : step.IsMove := by
  unfold ofPart? at hstep
  split at hstep
  · cases hstep
  · next hidle =>
      split at hstep
      · next hup =>
          obtain rfl := Option.some.inj hstep
          exact .up
      · next hup =>
          obtain rfl := Option.some.inj hstep
          simp only [Bool.or_eq_true, decide_eq_true_eq, not_or] at hidle
          exact .down ⟨notMem_of_mem_parts hpart, hidle.1, hidle.2, hup⟩

theorem isMove_of_mem_filterMap (hstep : step ∈ path.parts.filterMap ofPart?) : step.IsMove := by
  obtain ⟨part, hpart, heq⟩ := List.mem_filterMap.1 hstep
  exact isMove_of_mem_parts hpart heq

/-- A path has the steps of its parts, behind the root or behind a dot at its front. -/
theorem exists_steps_eq (path : Path) :
    ∃ front, path.steps = front ++ path.parts.filterMap ofPart? ∧
      (path.isAbsolute = true ∧ front = [.root] ∨
        path.isAbsolute = false ∧ (front = [] ∨ front = [.here])) := by
  cases habsolute : path.isAbsolute with
  | true =>
      refine ⟨[.root], ?_, .inl ⟨rfl, rfl⟩⟩
      rw [steps, if_pos habsolute]
      rfl
  | false =>
      rw [steps, if_neg (by simp [habsolute])]
      split
      · next parts hparts =>
          refine ⟨[.here], ?_, .inr ⟨rfl, .inr rfl⟩⟩
          rw [hparts]
          rfl
      · exact ⟨[], rfl, .inr ⟨rfl, .inl rfl⟩⟩

/-- The steps of an absolute path begin at the root, whereas those of another one never come to it. -/
theorem isAbsolute_iff_head?_steps : path.isAbsolute = true ↔ path.steps.head? = some .root := by
  obtain ⟨front, hsteps, ⟨habsolute, rfl⟩ | ⟨hrelative, hfront⟩⟩ := path.exists_steps_eq
  · simp [hsteps, habsolute]
  · have hmoves : (path.parts.filterMap ofPart?).head? ≠ some .root := by
      intro hroot
      have hmove := isMove_of_mem_filterMap (List.mem_of_mem_head? hroot)
      cases hmove
    rcases hfront with rfl | rfl
    · rw [hsteps, hrelative, List.nil_append]
      simpa using hmoves
    · simp [hsteps, hrelative]

theorem lead_eq_of_isAbsolute (habsolute : path.isAbsolute = true) (spot spot' : Spot) :
    path.lead spot = path.lead spot' := by
  obtain ⟨rest, hrest⟩ := List.head?_eq_some_iff.1 (isAbsolute_iff_head?_steps.1 habsolute)
  rw [lead, lead, hrest, List.foldl_cons, List.foldl_cons]
  rfl

/-- A dot at the front of a path leads nowhere. -/
theorem lead_of_isRelative (hrelative : path.isAbsolute = false) (spot : Spot) :
    path.lead spot = (path.parts.filterMap ofPart?).foldl go spot := by
  obtain ⟨front, hsteps, ⟨habsolute, -⟩ | ⟨-, rfl | rfl⟩⟩ := path.exists_steps_eq
  · exact absurd (habsolute.symm.trans hrelative) (by decide)
  · rw [lead, hsteps, List.nil_append]
  · rw [lead, hsteps, List.foldl_append]
    rfl

/-! ### The path of some steps -/

theorem isRelative_of_isMove (hstep : step.IsMove) : (⟨step.text⟩ : Path).isAbsolute = false := by
  cases hstep with
  | up => decide
  | down htext => exact isAbsolute_of_isPlainName htext

theorem parts_of_isMove (hstep : step.IsMove) : (⟨step.text⟩ : Path).parts = [step.text] := by
  cases hstep with
  | up => decide
  | down htext => exact parts_of_isPlainName htext

/-- A move is one more step, whatever the path that it is put behind. -/
theorem steps_join_move (path : Path) (hstep : step.IsMove) :
    (path.join ⟨step.text⟩).isAbsolute = path.isAbsolute ∧
      (path.join ⟨step.text⟩).steps = path.steps ++ [step] := by
  have hrelative := isRelative_of_isMove hstep
  have hparts : (⟨step.text⟩ : Path).parts.filterMap ofPart? = [step] := by
    rw [parts_of_isMove hstep]
    simp [hstep.ofPart?_text]
  by_cases hempty : path.text = ""
  · have hjoin : path.join ⟨step.text⟩ = ⟨step.text⟩ := by
      rw [join, hempty]
      simp
    obtain rfl : path = ⟨""⟩ := by
      cases path
      cases hempty
      rfl
    have hne : step.text ≠ "." := by
      cases hstep with
      | up => decide
      | down htext => exact htext.ne_here
    have hnone : (⟨""⟩ : Path).isAbsolute = false ∧ (⟨""⟩ : Path).steps = [] := by decide
    refine ⟨by rw [hjoin, hrelative, hnone.1], ?_⟩
    rw [hjoin, steps_of_parts (parts_of_isMove hstep), hrelative, hnone.2]
    simp [firstSteps, hne, hstep.ofPart?_text]
  · obtain ⟨habsolute, -⟩ := exists_parts_join_of_relative hrelative hempty
    exact ⟨habsolute, (steps_join_of_relative hrelative hempty).trans (by rw [hparts])⟩

theorem steps_foldl_join (path : Path) (hsteps : ∀ step ∈ steps, step.IsMove) :
    (steps.foldl (fun path step => path.join ⟨step.text⟩) path).isAbsolute = path.isAbsolute ∧
      (steps.foldl (fun path step => path.join ⟨step.text⟩) path).steps = path.steps ++ steps := by
  induction steps generalizing path with
  | nil => exact ⟨rfl, (List.append_nil _).symm⟩
  | cons step steps ih =>
      obtain ⟨hstep, hrest⟩ := List.forall_mem_cons.1 hsteps
      obtain ⟨habsolute, hjoined⟩ := path.steps_join_move hstep
      obtain ⟨habsolute', hjoined'⟩ := ih (path.join ⟨step.text⟩) hrest
      rw [List.foldl_cons]
      refine ⟨habsolute'.trans habsolute, hjoined'.trans ?_⟩
      rw [hjoined, List.append_assoc]
      rfl

/-- A path that is made of normal steps has just these. -/
theorem steps_ofSteps (isRooted : Bool) (ups : Nat) {names : List String}
    (hnames : ∀ name ∈ names, IsPlainName name) :
    (ofSteps (upAndDown isRooted ups names)).isAbsolute = isRooted ∧
      (ofSteps (upAndDown isRooted ups names)).steps = upAndDown isRooted ups names := by
  have hmoves : ∀ step ∈ List.replicate ups parent ++ names.map PathStep.name, step.IsMove := by
    intro step hstep
    rcases List.mem_append.1 hstep with hup | hdown
    · rw [List.eq_of_mem_replicate hup]
      exact .up
    · obtain ⟨text, htext, rfl⟩ := List.mem_map.1 hdown
      exact .down (hnames text htext)
  cases isRooted with
  | false => exact steps_foldl_join ⟨""⟩ hmoves
  | true => exact steps_foldl_join ⟨"/"⟩ hmoves

/-! ### Normal paths -/

/-- The steps of a path in normal form. -/
theorem exists_normalize_steps (path : Path) :
    ∃ ups names, PathStep.normalize path.steps = upAndDown path.isAbsolute ups names ∧
      ∀ name ∈ names, IsPlainName name := by
  obtain ⟨front, hsteps, hfront⟩ := path.exists_steps_eq
  have hstart : front.foldl push [] = upAndDown path.isAbsolute 0 [] := by
    rcases hfront with ⟨habsolute, rfl⟩ | ⟨hrelative, rfl | rfl⟩
    · rw [habsolute]
      rfl
    · rw [hrelative]
      rfl
    · rw [hrelative]
      rfl
  rw [PathStep.normalize, hsteps, List.foldl_append, hstart]
  exact foldl_push_upAndDown (fun _ => isMove_of_mem_filterMap) nofun

/-- A path in normal form that stands for another one: nothing is left to resolve, and it leads alike. -/
structure Resolves (path normal : Path) : Prop where
  isAbsolute : normal.isAbsolute = path.isAbsolute
  isNormal : normal.IsNormal
  normalize : normal.normalize = normal
  lead : ∀ spot, normal.lead spot = path.lead spot

theorem resolves_normalize (path : Path) : path.Resolves path.normalize := by
  obtain ⟨ups, names, hnormal, hnames⟩ := path.exists_normalize_steps
  obtain ⟨habsolute, hsteps⟩ := steps_ofSteps path.isAbsolute ups hnames
  have hpath : path.normalize = ofSteps (upAndDown path.isAbsolute ups names) :=
    congrArg ofSteps hnormal
  refine ⟨?_, ⟨ups, names, ?_⟩, ?_, fun spot => ?_⟩
  · rw [hpath, habsolute]
  · rw [hpath, habsolute, hsteps]
  · rw [hpath, Path.normalize, hsteps, normalize_upAndDown]
  · rw [lead, hpath, hsteps, ← hnormal]
    exact foldl_go_normalize spot path.steps

/-! ### Places on a disk -/

theorem walk_eq_foldl_go (spot : Spot) (parts : List String) :
    Spot.walk spot parts = (parts.filterMap ofPart?).foldl go spot := by
  induction parts generalizing spot with
  | nil => rfl
  | cons part parts ih =>
      rw [Spot.walk]
      by_cases hidle : (part = "" || part = ".") = true
      · rw [if_pos hidle, ih, List.filterMap_cons, ofPart?, if_pos hidle]
      · rw [if_neg hidle, List.filterMap_cons, ofPart?, if_neg hidle]
        by_cases hup : part = ".."
        · rw [if_pos hup, if_pos hup, ih, List.foldl_cons]
          rfl
        · rw [if_neg hup, if_neg hup, ih, List.foldl_cons]
          rfl

/-- The place that a path means on a disk is where it leads from the working directory. -/
theorem spotOf_eq_lead (disk : Disk) (path : Path) :
    disk.spotOf path = path.lead disk.workingDirectory := by
  rw [Disk.spotOf, walk_eq_foldl_go]
  cases habsolute : path.isAbsolute with
  | false => exact (lead_of_isRelative habsolute _).symm
  | true =>
      rw [if_pos rfl, lead, steps, if_pos habsolute, List.foldl_cons]
      rfl

/-- The normal form of a path means the same place on every disk. -/
theorem spotOf_normalize (disk : Disk) (path : Path) :
    disk.spotOf path.normalize = disk.spotOf path := by
  rw [spotOf_eq_lead, spotOf_eq_lead, path.resolves_normalize.lead]

/-- A path behind an absolute one leads on from where that one leads. -/
theorem lead_join (hbase : base.isAbsolute = true) (hpath : path.isAbsolute = false) (spot : Spot) :
    (base.join path).isAbsolute = true ∧ (base.join path).lead spot = path.lead (base.lead spot) := by
  have hne : base.text ≠ "" := by
    intro hempty
    rw [Path.isAbsolute, hempty] at hbase
    exact absurd hbase (by decide)
  refine ⟨(exists_parts_join_of_relative hpath hne).1.trans hbase, ?_⟩
  rw [lead_of_isRelative hpath, lead, steps_join_of_relative hpath hne, List.foldl_append, lead]

/--
**Normal paths keep their meaning.** The normal form of a path is its own normal form, goes up first
and then down, is absolute just if the path is, and leads to the same place from everywhere. A path
that is made absolute is in normal form and leads where the path leads from the base.
-/
theorem normal_path_leads_alike :
    (∀ path : Path, path.Resolves path.normalize) ∧
      ∀ base path : Path, base.isAbsolute = true →
        (base.absolutize path).isAbsolute = true ∧ (base.absolutize path).IsNormal ∧
          (base.absolutize path).normalize = base.absolutize path ∧
          ∀ spot, (base.absolutize path).lead spot = path.lead (base.lead spot) := by
  refine ⟨resolves_normalize, fun base path hbase => ?_⟩
  cases hpath : path.isAbsolute with
  | true =>
      obtain ⟨habsolute, hnormal, hagain, hlead⟩ := path.resolves_normalize
      rw [absolutize, if_pos hpath]
      refine ⟨habsolute.trans hpath, hnormal, hagain, fun spot => ?_⟩
      exact (hlead spot).trans (lead_eq_of_isAbsolute hpath _ _)
  | false =>
      obtain ⟨habsolute, hnormal, hagain, hlead⟩ := (base.join path).resolves_normalize
      rw [absolutize, if_neg (by simp [hpath])]
      refine ⟨habsolute.trans (lead_join hbase hpath []).1, hnormal, hagain, fun spot => ?_⟩
      exact (hlead spot).trans (lead_join hbase hpath spot).2

/-- From a base that goes back itself, and past the root. -/
theorem normal_path_leads_alike_past_root :
    (⟨"/proj/app/.."⟩ : Path).isAbsolute = true ∧
      ∀ spot, ((⟨"/proj/app/.."⟩ : Path).absolutize ⟨"./../..//out/./com/"⟩).lead spot =
        ["com", "out"] :=
  ⟨by decide, fun spot =>
    (normal_path_leads_alike.2 ⟨"/proj/app/.."⟩ ⟨"./../..//out/./com/"⟩ (by decide)).2.2.2 spot⟩

end Path

end ComponentTags
