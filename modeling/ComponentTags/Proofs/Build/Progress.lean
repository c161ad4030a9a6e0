import ComponentTags.Proofs.Build.EntryRegistry

/-!
Progress. A visit that cannot take a step waits for a gate, a slot or its children, and what it waits
for is never waiting for it: node gates wait for slots alone, children for node gates and children that
came up later, and entries for children and gates. So some visit can take a step until all are over.
-/

namespace ComponentTags.Build

/-- What a visit waits for that can take no step. -/
inductive Blocked (setting : BuildSetting) (build : Build) (visit : Visit) : Prop where
  | node (hstage : visit.stage = .waiting)
      (hgate : build.knowledge.nodes[visit.component.key]? = some .closed) :
      Blocked setting build visit
  | slot (hstage : visit.stage = .queued) (hslots : setting.slots ≤ build.requestsUnderWay) :
      Blocked setting build visit
  | child {ids : List Nat} {entry : Option Payload} {id : Nat}
      (hstage : visit.stage = .joining ids entry) (hid : id ∈ ids)
      (hdone : build.isDone id = false) : Blocked setting build visit
  | subtree {payload : Payload} {gathering : Gathering} {key : ComponentKey}
      (hstage : visit.stage = .gathering payload gathering)
      (hgate : build.knowledge.subtrees[key]? = some .closed) : Blocked setting build visit

/-- The children that a visit waits for came up after it. -/
def AllParented (build : Build) : Prop :=
  ∀ (i : Nat) (visit : Visit) (ids : List Nat) (entry : Option Payload),
    build.visits[i]? = some visit → visit.stage = .joining ids entry → ∀ id ∈ ids,
      i < id ∧ ∃ child, build.visits[id]? = some child ∧ child.isChild = true

section Steps

variable {setting : BuildSetting} {build next : Build} {index i : Nat} {visit other : Visit}
  {children : List Visit} {stage : Stage} {knowledge : Knowledge} {cache : Cache}

theorem blocked_of_step?_eq_none (hvisit : build.visits[i]? = some visit)
    (hover : visit.stage ≠ .done) (hstuck : build.step? setting i = none) :
    Blocked setting build visit := by
  unfold step? at hstuck
  rw [hvisit] at hstuck
  dsimp only at hstuck
  cases hstage : visit.stage with
  | waiting =>
      rw [hstage] at hstuck
      dsimp only at hstuck
      split at hstuck
      · next hgate => exact .node hstage hgate
      · cases hstuck
  | queued =>
      rw [hstage] at hstuck
      dsimp only at hstuck
      unfold send? at hstuck
      dsimp only at hstuck
      split at hstuck
      · cases hstuck
      · split at hstuck
        · cases hstuck
        · next hslots => exact .slot hstage (Nat.not_lt.1 hslots)
  | joining ids entry =>
      rw [hstage] at hstuck
      dsimp only at hstuck
      unfold join? at hstuck
      split at hstuck
      · cases hstuck
      · next hwaits =>
          obtain ⟨id, hid, hdone⟩ := List.all_eq_false.1 (by simpa using hwaits)
          exact .child hstage hid (by simpa using hdone)
  | gathering payload gathering =>
      rw [hstage] at hstuck
      dsimp only at hstuck
      unfold gather? at hstuck
      split at hstuck
      · cases hstuck
      · dsimp only at hstuck
        split at hstuck
        · cases hstuck
        · split at hstuck
          · next hgate => exact .subtree hstage hgate
          · cases hstuck
  | done => exact absurd hstage hover
  | _ =>
      rw [hstage] at hstuck
      cases hstuck

theorem Advances.remains (h : Advances setting build index visit children stage next)
    (hother : build.visits[i]? = some other) :
    ∃ stage', next.visits[i]? = some { other with stage := stage' } := by
  by_cases heq : i = index
  · subst heq
    obtain rfl : visit = other := Option.some.inj (h.found.symm.trans hother)
    exact ⟨stage, h.own⟩
  · exact ⟨other.stage, h.keeps heq hother⟩

theorem Move.joining {ids : List Nat} {entry : Option Payload}
    (h : Move setting build visit knowledge cache children (.joining ids entry)) :
    ids = List.range' build.visits.length children.length := by
  cases h with
  | hit | takeEntry | writeDependency => rfl

theorem AllParented.advance (h : AllParented build)
    (hstep : Advances setting build index visit children stage next) : AllParented next := by
  intro i other ids entry hother hstage id hid
  rcases hstep.visit_cases hother with ⟨rfl, rfl⟩ | ⟨-, hkept⟩ | ⟨-, -, hchild⟩
  · dsimp only at hstage
    subst hstage
    obtain rfl := hstep.move.joining
    obtain ⟨hfirst, hlast⟩ := List.mem_range'_1.1 hid
    have hindex := hstep.index_lt
    obtain ⟨n, rfl⟩ := Nat.exists_eq_add_of_le hfirst
    have hlt : n < children.length := by omega
    have hcame := hstep.came n
    rw [List.getElem?_eq_getElem hlt] at hcame
    exact ⟨by omega, children[n], hcame, (hstep.move.isChildOf (List.getElem_mem hlt)).isChild⟩
  · obtain ⟨hlt, child, hchild, his⟩ := h i other ids entry hkept hstage id hid
    obtain ⟨stage', hchild'⟩ := hstep.remains hchild
    exact ⟨hlt, _, hchild', his⟩
  · rw [hchild.stage] at hstage
    cases hstage

theorem AllParented.begin (h : AllParented build) (components : List NamedReference) :
    AllParented (build.begin components) := by
  intro i visit ids entry hvisit hstage id hid
  rcases getElem?_begin hvisit with hold | ⟨harriving, -, -⟩
  · obtain ⟨hlt, child, hchild, his⟩ := h i visit ids entry hold hstage id hid
    exact ⟨hlt, child, getElem?_begin_of_some components hchild, his⟩
  · rw [harriving] at hstage
    cases hstage

theorem Run.allParented {cache : Cache} {disk : Disk} {turns : List Turn}
    (hrun : Run setting (Build.start cache disk) turns build) : AllParented build := by
  induction hrun with
  | start =>
      intro i visit ids entry hvisit
      simp [Build.start] at hvisit
  | begin references hrun ih => exact ih.begin _
  | step index hrun hnext ih =>
      obtain ⟨visit, children, stage, hstep⟩ := exists_advances hnext
      exact ih.advance hstep

end Steps

/-! ### A build in which no visit can take a step -/

/-- Every visit that is not over waits for something. -/
def IsStuck (setting : BuildSetting) (build : Build) : Prop :=
  ∀ (i : Nat) (visit : Visit), build.visits[i]? = some visit → visit.stage ≠ .done →
    Blocked setting build visit

namespace IsStuck

variable {setting : BuildSetting} {build : Build} {owner : ComponentKey → Option Nat} {i : Nat}
  {visit : Visit} {key : ComponentKey}

/-- With a slot to be had, no visit waits for one: a visit that holds it is not waiting. -/
theorem ne_queued (h : IsStuck setting build) (hslots : 0 < setting.slots)
    (hvisit : build.visits[i]? = some visit) : visit.stage ≠ .queued := by
  intro hqueued
  cases h i visit hvisit (by simp [hqueued]) with
  | slot hstage hfull =>
      have hrequests : 0 < build.requestsUnderWay := Nat.lt_of_lt_of_le hslots hfull
      obtain ⟨other, hother, hrequesting⟩ := List.countP_pos_iff.1 hrequests
      obtain ⟨j, hj⟩ := List.mem_iff_getElem?.1 hother
      have hstage' : other.stage = .requesting := by simpa using hrequesting
      cases h j other hj (by simp [hstage']) <;> simp_all
  | _ => simp_all

theorem node_ne_closed (h : IsStuck setting build) (hslots : 0 < setting.slots)
    (hguarded : Guarded setting build owner) : build.knowledge.nodes[key]? ≠ some .closed := by
  intro hclosed
  cases howner : owner key with
  | none => simp [(hguarded.unmet key howner).1] at hclosed
  | some i =>
      obtain ⟨visit, hvisit, rfl, hguards⟩ := hguarded.owned key i howner
      obtain ⟨node, subtree, hgates, hnode, -⟩ := hguards.gates
      rw [hclosed] at hnode
      cases hnode
      have hqueued := h.ne_queued hslots hvisit
      have hdone : visit.stage ≠ .done := by
        intro hstage
        simp [hstage, gates?] at hgates
      cases h i visit hvisit hdone with
      | slot hstage => exact hqueued hstage
      | node hstage | child hstage | subtree hstage => simp [hstage, gates?] at hgates

/-- Children wait for children that came up later, so the last of these waits for nothing. -/
theorem ne_joining (h : IsStuck setting build) (hslots : 0 < setting.slots)
    (hguarded : Guarded setting build owner) (hfaithful : AllFaithful setting build)
    (hparented : AllParented build) (hvisit : build.visits[i]? = some visit) (ids : List Nat)
    (entry : Option Payload) : visit.stage ≠ .joining ids entry := by
  induction hrest : build.visits.length - i using Nat.strongRecOn
    generalizing i visit ids entry with
  | ind rest ih =>
      intro hjoining
      cases h i visit hvisit (by simp [hjoining]) with
      | @child ids' entry' id hstage hid hdone =>
          obtain ⟨hlt, child, hchild, hisChild⟩ := hparented i visit ids' entry' hvisit hstage id hid
          have hend := (List.getElem?_eq_some_iff.1 hchild).1
          have hstage' : child.stage ≠ .done := by
            intro hover
            simp [isDone, hchild, hover] at hdone
          cases h id child hchild hstage' with
          | node hwaiting hclosed => exact h.node_ne_closed hslots hguarded hclosed
          | slot hqueued => exact h.ne_queued hslots hchild hqueued
          | child hjoins => exact ih (build.visits.length - id) (by omega) hchild _ _ rfl hjoins
          | subtree hgathers =>
              have hsuits := (hfaithful id child hchild).suits
              rw [hgathers, hisChild] at hsuits
              cases hsuits
      | _ => simp_all

theorem subtree_ne_closed (h : IsStuck setting build) (hslots : 0 < setting.slots)
    (hguarded : Guarded setting build owner) (hfaithful : AllFaithful setting build)
    (hparented : AllParented build) : build.knowledge.subtrees[key]? ≠ some .closed := by
  intro hclosed
  cases howner : owner key with
  | none => simp [(hguarded.unmet key howner).2.1] at hclosed
  | some i =>
      obtain ⟨visit, hvisit, rfl, hguards⟩ := hguarded.owned key i howner
      obtain ⟨node, subtree, hgates, -, hsubtree⟩ := hguards.gates
      rw [hclosed] at hsubtree
      cases hsubtree
      have hdone : visit.stage ≠ .done := by
        intro hstage
        simp [hstage, gates?] at hgates
      cases h i visit hvisit hdone with
      | slot hstage => exact h.ne_queued hslots hvisit hstage
      | child hstage => exact h.ne_joining hslots hguarded hfaithful hparented hvisit _ _ hstage
      | node hstage | subtree hstage => simp [hstage, gates?] at hgates

/-- A build in which no visit can take a step is over. -/
theorem stage_eq_done (h : IsStuck setting build) (hslots : 0 < setting.slots)
    (hguarded : Guarded setting build owner) (hfaithful : AllFaithful setting build)
    (hparented : AllParented build) (hvisit : build.visits[i]? = some visit) :
    visit.stage = .done := by
  refine Classical.byContradiction fun hdone => ?_
  cases h i visit hvisit hdone with
  | node hstage hclosed => exact h.node_ne_closed hslots hguarded hclosed
  | slot hstage => exact h.ne_queued hslots hvisit hstage
  | child hstage => exact h.ne_joining hslots hguarded hfaithful hparented hvisit _ _ hstage
  | subtree hstage hclosed =>
      exact h.subtree_ne_closed hslots hguarded hfaithful hparented hclosed

end IsStuck

section Runs

variable {setting : BuildSetting} {build : Build} {turns : List Turn} {cache : Cache} {disk : Disk}

theorem Run.guarded (hrun : Run setting (Build.start cache disk) turns build) :
    ∃ owner, Guarded setting build owner := by
  induction hrun with
  | start => exact ⟨_, guarded_start setting cache disk⟩
  | begin references hrun ih =>
      obtain ⟨owner, hguarded⟩ := ih
      exact ⟨owner, hguarded.begin _⟩
  | step index hrun hnext ih =>
      obtain ⟨owner, hguarded⟩ := ih
      obtain ⟨visit, children, stage, hstep⟩ := exists_advances hnext
      obtain ⟨owner', hguarded', -⟩ := hguarded.advance hstep
      exact ⟨owner', hguarded'⟩

/-- Until a build is over some visit can take a step, if there is a slot for requests. -/
theorem Run.exists_stepsTo (hrun : Run setting (Build.start cache disk) turns build)
    (hslots : 0 < setting.slots) (hover : build.isFinished = false) :
    ∃ next, StepsTo setting build next := by
  obtain ⟨owner, hguarded⟩ := hrun.guarded
  refine Classical.byContradiction fun hnone => ?_
  have hstuck : IsStuck setting build := by
    intro i visit hvisit hdone
    refine blocked_of_step?_eq_none hvisit hdone ?_
    cases hnext : build.step? setting i with
    | none => rfl
    | some next => exact absurd ⟨next, i, hnext⟩ hnone
  obtain ⟨visit, hvisit, hdone⟩ := List.all_eq_false.1 hover
  obtain ⟨i, hi⟩ := List.mem_iff_getElem?.1 hvisit
  exact hdone (by simpa using
    hstuck.stage_eq_done hslots hguarded hrun.allFaithful hrun.allParented hi)

end Runs

end ComponentTags.Build
