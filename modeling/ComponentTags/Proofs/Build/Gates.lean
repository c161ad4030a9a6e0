import ComponentTags.Proofs.Build.Runs

/-!
Gates. The visit that closes the gates of a component is the only one that changes what is known of
it, and its stage tells how the gates stand. A subtree gate opens only after all that the component
needs was met.
-/

namespace ComponentTags.Build

/-- How the node gate and the subtree gate stand while the visit that closed them is at a stage. -/
def gates? : Stage → Option (Gate × Gate)
  | .arriving | .waiting => none
  | .looking _ | .queued | .requesting | .failing | .writing _ => some (.closed, .closed)
  | .joining _ _ => some (.opened, .closed)
  | .gathering _ _ | .done => some (.opened, .opened)

/-- Whether a visit is at work that closed the gates of its component. -/
def IsUnderWay : Stage → Prop
  | .arriving | .waiting | .done => False
  | _ => True

/-- What is known of a component's needs while the visit that closed its gates is at a stage. -/
def Knows (known : Option (List Dependency)) : Stage → Prop
  | .writing payload => known = some payload.deps
  | .joining _ none => known.isSome
  | .joining _ (some payload) => known = some payload.deps
  | .gathering payload _ => known = some payload.deps
  | .done => True
  | _ => known = none

/-- The key of a component that the one with that key needs. -/
def childKey (setting : BuildSetting) (key : ComponentKey) (dep : Dependency) : ComponentKey :=
  setting.workshop.naming.key { tag := key.tag, space := dep.space, version := dep.version }

theorem key_named_child (setting : BuildSetting) (component : NamedReference) (dep : Dependency) :
    (named setting (component.reference.child dep)).key = childKey setting component.key dep :=
  rfl

/-- A visit that closed the gates of its component. -/
structure Guards (setting : BuildSetting) (build : Build) (visit : Visit) : Prop where
  gates : ∃ node subtree, gates? visit.stage = some (node, subtree) ∧
    build.knowledge.nodes[visit.component.key]? = some node ∧
    build.knowledge.subtrees[visit.component.key]? = some subtree
  knows : Knows build.knowledge.deps[visit.component.key]? visit.stage
  met : ∀ ids entry deps, visit.stage = .joining ids entry →
    build.knowledge.deps[visit.component.key]? = some deps → ∀ dep ∈ deps,
      childKey setting visit.component.key dep ∈ visit.ancestors ++ [visit.component.key] ∨
        ∃ id ∈ ids, ∃ child, build.visits[id]? = some child ∧
          child.component.key = childKey setting visit.component.key dep

/-- The visits that closed the gates of the components met so far, and what follows for the others. -/
structure Guarded (setting : BuildSetting) (build : Build) (owner : ComponentKey → Option Nat) :
    Prop where
  unmet : ∀ key, owner key = none → build.knowledge.nodes[key]? = none ∧
    build.knowledge.subtrees[key]? = none ∧ build.knowledge.deps[key]? = none
  owned : ∀ key i, owner key = some i →
    ∃ visit, build.visits[i]? = some visit ∧ visit.component.key = key ∧
      Guards setting build visit
  others : ∀ (i : Nat) (visit : Visit), build.visits[i]? = some visit →
    owner visit.component.key ≠ some i → visit.stage = .arriving ∨
      (visit.stage = .waiting ∨ visit.stage = .done) ∧ (owner visit.component.key).isSome
  ancestors : ∀ (i : Nat) (visit : Visit), build.visits[i]? = some visit →
    ∀ key ∈ visit.ancestors, (owner key).isSome
  complete : ∀ key deps, build.knowledge.subtrees[key]? = some .opened →
    build.knowledge.deps[key]? = some deps →
    ∀ dep ∈ deps, (owner (childKey setting key dep)).isSome

/-- The same is known of every component but one. -/
structure AgreesOff (key : ComponentKey) (knowledge other : Knowledge) : Prop where
  nodes : ∀ k, k ≠ key → other.nodes[k]? = knowledge.nodes[k]?
  subtrees : ∀ k, k ≠ key → other.subtrees[k]? = knowledge.subtrees[k]?
  deps : ∀ k, k ≠ key → other.deps[k]? = knowledge.deps[k]?

section Knowledge

variable (build : Build) (key : ComponentKey) (deps : List Dependency)

theorem AgreesOff.refl (knowledge : Knowledge) : AgreesOff key knowledge knowledge :=
  ⟨fun _ _ => rfl, fun _ _ => rfl, fun _ _ => rfl⟩

theorem AgreesOff.trans {key : ComponentKey} {first second third : Knowledge}
    (h : AgreesOff key first second) (h' : AgreesOff key second third) :
    AgreesOff key first third :=
  ⟨fun k hk => (h'.nodes k hk).trans (h.nodes k hk),
    fun k hk => (h'.subtrees k hk).trans (h.subtrees k hk),
    fun k hk => (h'.deps k hk).trans (h.deps k hk)⟩

theorem agreesOff_close : AgreesOff key build.knowledge (build.close key).knowledge :=
  ⟨fun k hk => by simp [close, Std.ExtTreeMap.getElem?_insert, Ne.symm hk],
    fun k hk => by simp [close, Std.ExtTreeMap.getElem?_insert, Ne.symm hk], fun _ _ => rfl⟩

theorem agreesOff_openNode : AgreesOff key build.knowledge (build.openNode key).knowledge :=
  ⟨fun k hk => by simp [openNode, Std.ExtTreeMap.getElem?_insert, Ne.symm hk],
    fun _ _ => rfl, fun _ _ => rfl⟩

theorem agreesOff_openSubtree : AgreesOff key build.knowledge (build.openSubtree key).knowledge :=
  ⟨fun _ _ => rfl,
    fun k hk => by simp [openSubtree, Std.ExtTreeMap.getElem?_insert, Ne.symm hk],
    fun _ _ => rfl⟩

theorem agreesOff_learn : AgreesOff key build.knowledge (build.learn key deps).knowledge :=
  ⟨fun _ _ => rfl, fun _ _ => rfl,
    fun k hk => by simp [learn, Std.ExtTreeMap.getElem?_insert, Ne.symm hk]⟩

@[simp]
theorem nodes_close : (build.close key).knowledge.nodes[key]? = some .closed := by
  simp [close]

@[simp]
theorem subtrees_close : (build.close key).knowledge.subtrees[key]? = some .closed := by
  simp [close]

@[simp]
theorem deps_close : (build.close key).knowledge.deps = build.knowledge.deps :=
  rfl

@[simp]
theorem nodes_openNode : (build.openNode key).knowledge.nodes[key]? = some .opened := by
  simp [openNode]

@[simp]
theorem subtrees_openNode :
    (build.openNode key).knowledge.subtrees = build.knowledge.subtrees :=
  rfl

@[simp]
theorem deps_openNode : (build.openNode key).knowledge.deps = build.knowledge.deps :=
  rfl

@[simp]
theorem nodes_openSubtree : (build.openSubtree key).knowledge.nodes = build.knowledge.nodes :=
  rfl

@[simp]
theorem subtrees_openSubtree :
    (build.openSubtree key).knowledge.subtrees[key]? = some .opened := by
  simp [openSubtree]

@[simp]
theorem deps_openSubtree : (build.openSubtree key).knowledge.deps = build.knowledge.deps :=
  rfl

@[simp]
theorem nodes_learn : (build.learn key deps).knowledge.nodes = build.knowledge.nodes :=
  rfl

@[simp]
theorem subtrees_learn : (build.learn key deps).knowledge.subtrees = build.knowledge.subtrees :=
  rfl

@[simp]
theorem deps_learn : (build.learn key deps).knowledge.deps[key]? = some deps := by
  simp [learn]

end Knowledge

section Steps

variable {setting : BuildSetting} {build next : Build} {owner : ComponentKey → Option Nat}
  {index i : Nat} {visit other : Visit} {children : List Visit} {stage : Stage}
  {knowledge : Knowledge} {cache : Cache}

/-- A move changes what is known of the visit's own component alone. -/
theorem Move.agreesOff (h : Move setting build visit knowledge cache children stage) :
    AgreesOff visit.component.key build.knowledge knowledge := by
  cases h with
  | claimKnown | claimUnknown => exact agreesOff_close build _
  | hit deps | takeEntry => exact (agreesOff_learn build _ _).trans (agreesOff_openNode _ _)
  | takeDependency => exact agreesOff_learn build _ _
  | apologize => exact (agreesOff_openSubtree build _).trans (agreesOff_openNode _ _)
  | writeDependency => exact agreesOff_openNode build _
  | joinDependency | joinEntry => exact agreesOff_openSubtree build _
  | _ => exact .refl _ _

/-! ### Visits that did not close a gate -/

theorem Guards.gates?_ne_none (h : Guards setting build visit) : gates? visit.stage ≠ none := by
  obtain ⟨node, subtree, hgates, -, -⟩ := h.gates
  simp [hgates]

theorem Guarded.isSome_iff (h : Guarded setting build owner) (key : ComponentKey) :
    (owner key).isSome ↔ key ∈ build.knowledge.nodes := by
  rw [Std.ExtTreeMap.mem_iff_isSome_getElem?]
  cases howner : owner key with
  | none => simp [(h.unmet key howner).1]
  | some i =>
      obtain ⟨visit, -, rfl, hguards⟩ := h.owned key i howner
      obtain ⟨node, subtree, -, hnode, -⟩ := hguards.gates
      simp [hnode]

theorem Guarded.owner_eq (h : Guarded setting build owner) (hvisit : build.visits[i]? = some visit)
    {stage' : Stage} (hstage : visit.stage = stage') (hway : IsUnderWay stage') :
    owner visit.component.key = some i := by
  subst hstage
  refine Classical.byContradiction fun hne => ?_
  rcases h.others i visit hvisit hne with hother | ⟨hother | hother, -⟩ <;>
    · rw [hother] at hway
      exact hway

theorem Guarded.guards (h : Guarded setting build owner) (hvisit : build.visits[i]? = some visit)
    (howner : owner visit.component.key = some i) : Guards setting build visit := by
  obtain ⟨found, hfound, -, hguards⟩ := h.owned _ i howner
  rw [hvisit] at hfound
  cases hfound
  exact hguards

theorem Guards.gates_eq (h : Guards setting build visit) {stage' : Stage}
    (hstage : visit.stage = stage') {node subtree : Gate}
    (hgates : gates? stage' = some (node, subtree)) :
    build.knowledge.nodes[visit.component.key]? = some node ∧
      build.knowledge.subtrees[visit.component.key]? = some subtree := by
  obtain ⟨node', subtree', hgates', hnode, hsubtree⟩ := h.gates
  rw [hstage, hgates] at hgates'
  cases hgates'
  exact ⟨hnode, hsubtree⟩

theorem Guarded.not_owner (h : Guarded setting build owner)
    (hvisit : build.visits[i]? = some visit) {stage' : Stage} (hstage : visit.stage = stage')
    (hgates : gates? stage' = none) : owner visit.component.key ≠ some i := by
  intro howner
  apply (h.guards hvisit howner).gates?_ne_none
  rw [hstage, hgates]

/-! ### Steps -/

theorem Advances.component (h : Advances setting build index visit children stage next)
    (hother : build.visits[i]? = some other) :
    ∃ other', next.visits[i]? = some other' ∧ other'.component = other.component := by
  by_cases heq : i = index
  · subst heq
    rw [h.found] at hother
    cases hother
    exact ⟨_, h.own, rfl⟩
  · exact ⟨other, h.keeps heq hother, rfl⟩

theorem Guards.keep (h : Guards setting build other)
    (hstep : Advances setting build index visit children stage next)
    (hne : other.component.key ≠ visit.component.key) : Guards setting next other := by
  have hagrees := hstep.move.agreesOff
  refine ⟨?_, ?_, ?_⟩
  · obtain ⟨node, subtree, hgates, hnode, hsubtree⟩ := h.gates
    exact ⟨node, subtree, hgates, by rw [hagrees.nodes _ hne, hnode],
      by rw [hagrees.subtrees _ hne, hsubtree]⟩
  · rw [hagrees.deps _ hne]
    exact h.knows
  · intro ids entry deps hstage hdeps dep hdep
    rw [hagrees.deps _ hne] at hdeps
    refine (h.met ids entry deps hstage hdeps dep hdep).imp_right ?_
    rintro ⟨id, hid, child, hchild, hkey⟩
    obtain ⟨child', hchild', hcomponent⟩ := hstep.component hchild
    exact ⟨id, hid, child', hchild', by rw [hcomponent, hkey]⟩

/-- The owners once the component with that key was met; the visit may be the one that met it first. -/
structure Extends (owner owner' : ComponentKey → Option Nat) (key : ComponentKey) (index : Nat) :
    Prop where
  met : (owner' key).isSome
  kept : ∀ k i, owner k = some i → owner' k = some i
  new : ∀ k i, owner' k = some i → owner k = some i ∨ owner k = none ∧ k = key ∧ i = index

theorem Extends.refl {key : ComponentKey} (h : (owner key).isSome) :
    Extends owner owner key index :=
  ⟨h, fun _ _ => id, fun _ _ => .inl⟩

theorem Extends.of_none {owner' : ComponentKey → Option Nat} {key k : ComponentKey}
    (h : Extends owner owner' key index) (hnone : owner' k = none) : owner k = none ∧ k ≠ key := by
  refine ⟨?_, ?_⟩
  · cases howner : owner k with
    | none => rfl
    | some i =>
        rw [h.kept k i howner] at hnone
        cases hnone
  · rintro rfl
    have := h.met
    rw [hnone] at this
    cases this

theorem Guarded.idle (h : Guarded setting build owner)
    (hstep : Advances setting build index visit [] stage next)
    (hknowledge : next.knowledge = build.knowledge)
    (hmet : (owner visit.component.key).isSome)
    (hother : owner visit.component.key ≠ some index)
    (hstage : stage = .waiting ∨ stage = .done) :
    ∃ owner', Guarded setting next owner' ∧
      Extends owner owner' visit.component.key index := by
  refine ⟨owner, ⟨?_, ?_, ?_, ?_, ?_⟩, .refl hmet⟩
  · rw [hknowledge]
    exact h.unmet
  · intro key i howner
    obtain ⟨found, hfound, rfl, hguards⟩ := h.owned key i howner
    have hne : i ≠ index := by
      rintro rfl
      rw [hstep.found] at hfound
      cases hfound
      exact hother howner
    refine ⟨found, hstep.keeps hne hfound, rfl, ?_, ?_, ?_⟩
    · rw [hknowledge]
      exact hguards.gates
    · rw [hknowledge]
      exact hguards.knows
    · intro ids entry deps hjoining hdeps dep hdep
      rw [hknowledge] at hdeps
      refine (hguards.met ids entry deps hjoining hdeps dep hdep).imp_right ?_
      rintro ⟨id, hid, child, hchild, hkey⟩
      obtain ⟨child', hchild', hcomponent⟩ := hstep.component hchild
      exact ⟨id, hid, child', hchild', by rw [hcomponent, hkey]⟩
  · intro i other hvisit howner
    rcases hstep.visit_cases hvisit with ⟨-, rfl⟩ | ⟨-, hkept⟩ | ⟨-, -, hchild⟩
    · exact .inr ⟨hstage, hmet⟩
    · exact h.others i other hkept howner
    · exact .inl hchild.stage
  · intro i other hvisit key hkey
    rcases hstep.visit_cases hvisit with ⟨-, rfl⟩ | ⟨-, hkept⟩ | ⟨-, -, hchild⟩
    · exact h.ancestors index visit hstep.found key hkey
    · exact h.ancestors i other hkept key hkey
    · rw [hchild.ancestors, List.mem_append, List.mem_singleton] at hkey
      rcases hkey with hkey | rfl
      · exact h.ancestors index visit hstep.found key hkey
      · exact hmet
  · rw [hknowledge]
    exact h.complete

/-- The owners with one more: the visit that just closed the gates of that component. -/
def withOwner (owner : ComponentKey → Option Nat) (key : ComponentKey) (index : Nat) :
    ComponentKey → Option Nat :=
  fun k => if k = key then some index else owner k

theorem isSome_withOwner {key k : ComponentKey} (h : (owner k).isSome) :
    (withOwner owner key index k).isSome := by
  unfold withOwner
  split
  · rfl
  · exact h

theorem Extends.withOwner {key : ComponentKey}
    (h : owner key = none ∨ owner key = some index) :
    Extends owner (withOwner owner key index) key index where
  met := by simp [Build.withOwner]
  kept k i hk := by
    unfold Build.withOwner
    split
    · next heq =>
        subst heq
        rcases h with hnone | hsome
        · rw [hnone] at hk
          cases hk
        · rw [← hk, hsome]
    · exact hk
  new k i hk := by
    unfold Build.withOwner at hk
    split at hk
    · next heq =>
        subst heq
        cases hk
        rcases h with hnone | hsome
        · exact .inr ⟨hnone, rfl, rfl⟩
        · exact .inl hsome
    · exact .inl hk

/-- The visit that closed the gates of a component, or closes them now, takes a step. -/
theorem Guarded.own (h : Guarded setting build owner)
    (hstep : Advances setting build index visit children stage next)
    (howner : owner visit.component.key = none ∨ owner visit.component.key = some index)
    (hguards : Guards setting next { visit with stage })
    (hcomplete : ∀ deps, next.knowledge.subtrees[visit.component.key]? = some .opened →
      next.knowledge.deps[visit.component.key]? = some deps → ∀ dep ∈ deps,
        (withOwner owner visit.component.key index
          (childKey setting visit.component.key dep)).isSome) :
    ∃ owner', Guarded setting next owner' ∧
      Extends owner owner' visit.component.key index := by
  have hagrees := hstep.move.agreesOff
  have hself : withOwner owner visit.component.key index visit.component.key = some index := by
    simp [withOwner]
  have hrest : ∀ k, k ≠ visit.component.key →
      withOwner owner visit.component.key index k = owner k := by
    intro k hk
    simp [withOwner, hk]
  refine ⟨withOwner owner visit.component.key index, ⟨?_, ?_, ?_, ?_, ?_⟩, .withOwner howner⟩
  · intro k hk
    have hne : k ≠ visit.component.key := by
      rintro rfl
      simp [hself] at hk
    rw [hrest k hne] at hk
    rw [hagrees.nodes k hne, hagrees.subtrees k hne, hagrees.deps k hne]
    exact h.unmet k hk
  · intro k i hk
    by_cases heq : k = visit.component.key
    · subst heq
      obtain rfl : index = i := Option.some.inj (hself.symm.trans hk)
      exact ⟨{ visit with stage }, hstep.own, rfl, hguards⟩
    · rw [hrest k heq] at hk
      obtain ⟨found, hfound, rfl, hfoundGuards⟩ := h.owned k i hk
      have hne : i ≠ index := by
        rintro rfl
        rw [hstep.found] at hfound
        cases hfound
        exact heq rfl
      exact ⟨found, hstep.keeps hne hfound, rfl, hfoundGuards.keep hstep heq⟩
  · intro i other hvisit hother
    rcases hstep.visit_cases hvisit with ⟨rfl, rfl⟩ | ⟨hne, hkept⟩ | ⟨-, -, hchild⟩
    · exact absurd hself hother
    · have hwas : owner other.component.key ≠ some i := by
        intro heq
        by_cases hkey : other.component.key = visit.component.key
        · rw [hkey] at heq
          rcases howner with hnone | hsome
          · simp [hnone] at heq
          · rw [hsome] at heq
            exact hne (Option.some.inj heq).symm
        · exact hother (by rw [hrest _ hkey, heq])
      exact (h.others i other hkept hwas).imp_right fun ⟨hstage, hsome⟩ =>
        ⟨hstage, isSome_withOwner hsome⟩
    · exact .inl hchild.stage
  · intro i other hvisit key hkey
    rcases hstep.visit_cases hvisit with ⟨-, rfl⟩ | ⟨-, hkept⟩ | ⟨-, -, hchild⟩
    · exact isSome_withOwner (h.ancestors index visit hstep.found key hkey)
    · exact isSome_withOwner (h.ancestors i other hkept key hkey)
    · rw [hchild.ancestors, List.mem_append, List.mem_singleton] at hkey
      rcases hkey with hkey | rfl
      · exact isSome_withOwner (h.ancestors index visit hstep.found key hkey)
      · simp [hself]
  · intro k deps hopened hdeps dep hdep
    by_cases heq : k = visit.component.key
    · subst heq
      exact hcomplete deps hopened hdeps dep hdep
    · rw [hagrees.subtrees k heq] at hopened
      rw [hagrees.deps k heq] at hdeps
      exact isSome_withOwner (h.complete k deps hopened hdeps dep hdep)

theorem met_freshVisits (hstep : Advances setting build index visit children stage next)
    {deps : List Dependency} (hchildren : children = freshVisits setting visit deps)
    {dep : Dependency} (hdep : dep ∈ deps) :
    childKey setting visit.component.key dep ∈ visit.ancestors ++ [visit.component.key] ∨
      ∃ id ∈ List.range' build.visits.length (freshVisits setting visit deps).length,
        ∃ child, next.visits[id]? = some child ∧
          child.component.key = childKey setting visit.component.key dep := by
  by_cases hcyclic : childKey setting visit.component.key dep ∈
      visit.ancestors ++ [visit.component.key]
  · exact .inl hcyclic
  · refine .inr ?_
    have hmem : ({ component := named setting (visit.component.reference.child dep)
                   ancestors := visit.ancestors ++ [visit.component.key], isChild := true
                   run := visit.run, stage := .arriving } : Visit) ∈
        freshVisits setting visit deps := by
      refine List.mem_map_of_mem (List.mem_filter.2 ⟨List.mem_map_of_mem hdep, ?_⟩)
      rw [key_named_child]
      simpa using hcyclic
    obtain ⟨i, hi, hchild⟩ := List.mem_iff_getElem.1 hmem
    refine ⟨build.visits.length + i, List.mem_range'_1.2 ⟨by omega, by omega⟩,
      (freshVisits setting visit deps)[i], ?_, ?_⟩
    · rw [hstep.came i, hchildren, List.getElem?_eq_getElem hi]
    · rw [hchild]
      exact key_named_child setting visit.component dep

/-- Once all its children are done, all that a component needs was met. -/
theorem Guarded.complete_of_joined (h : Guarded setting build owner)
    (hvisit : build.visits[index]? = some visit)
    (howner : owner visit.component.key = some index) {ids : List Nat} {entry : Option Payload}
    (hstage : visit.stage = .joining ids entry) (hdone : ids.all build.isDone = true)
    {deps : List Dependency} (hdeps : build.knowledge.deps[visit.component.key]? = some deps)
    {dep : Dependency} (hdep : dep ∈ deps) :
    (owner (childKey setting visit.component.key dep)).isSome := by
  rcases (h.guards hvisit howner).met ids entry deps hstage hdeps dep hdep with
    hmem | ⟨id, hid, child, hchild, hkey⟩
  · rw [List.mem_append, List.mem_singleton] at hmem
    rcases hmem with hancestor | hself
    · exact h.ancestors index visit hvisit _ hancestor
    · rw [hself, howner]
      rfl
  · have hover : child.stage = .done := by
      have := List.all_eq_true.1 hdone id hid
      simpa [isDone, hchild] using this
    rw [← hkey]
    by_cases hown : owner child.component.key = some id
    · simp [hown]
    · rcases h.others id child hchild hown with harriving | ⟨-, hsome⟩
      · rw [hover] at harriving
        cases harriving
      · exact hsome

/-! Each kind of move of a visit that closed its gates. -/

theorem Guarded.own_quiet (h : Guarded setting build owner)
    (hstep : Advances setting build index visit children stage next)
    (howner : owner visit.component.key = some index)
    (hknowledge : next.knowledge = build.knowledge) (hgates : gates? stage = gates? visit.stage)
    (hknows : ∀ known, Knows known visit.stage → Knows known stage)
    (hjoining : ∀ ids entry, stage ≠ .joining ids entry) :
    ∃ owner', Guarded setting next owner' ∧
      Extends owner owner' visit.component.key index := by
  have hguards := h.guards hstep.found howner
  refine h.own hstep (.inr howner) ⟨?_, ?_, ?_⟩ ?_
  · rw [hknowledge]
    change ∃ node subtree, gates? stage = some (node, subtree) ∧ _
    rw [hgates]
    exact hguards.gates
  · rw [hknowledge]
    exact hknows _ hguards.knows
  · intro ids entry deps hstage
    exact absurd hstage (hjoining ids entry)
  · rw [hknowledge]
    intro deps hopened hdeps dep hdep
    exact isSome_withOwner (h.complete _ deps hopened hdeps dep hdep)

theorem Guarded.own_joining (h : Guarded setting build owner) {deps : List Dependency}
    {entry : Option Payload}
    (hstep : Advances setting build index visit (freshVisits setting visit deps)
      (build.joiningStage setting visit deps entry) next)
    (howner : owner visit.component.key = some index)
    (hclosed : build.knowledge.subtrees[visit.component.key]? = some .closed)
    (hnode : next.knowledge.nodes[visit.component.key]? = some .opened)
    (hsubtrees : next.knowledge.subtrees = build.knowledge.subtrees)
    (hdeps : next.knowledge.deps[visit.component.key]? = some deps)
    (hentry : ∀ payload, entry = some payload → payload.deps = deps) :
    ∃ owner', Guarded setting next owner' ∧
      Extends owner owner' visit.component.key index := by
  refine h.own hstep (.inr howner) ⟨?_, ?_, ?_⟩ ?_
  · exact ⟨.opened, .closed, rfl, hnode, by rw [hsubtrees, hclosed]⟩
  · rw [hdeps]
    cases entry with
    | none => rfl
    | some payload => exact congrArg some (hentry payload rfl).symm
  · intro ids entry' deps' hstage hdeps' dep hdep
    rw [hdeps] at hdeps'
    cases hdeps'
    cases hstage
    exact met_freshVisits hstep rfl hdep
  · intro deps' hopened
    rw [hsubtrees, hclosed] at hopened
    cases hopened

theorem Guarded.own_joined (h : Guarded setting build owner)
    (hstep : Advances setting build index visit [] stage next)
    (howner : owner visit.component.key = some index)
    {ids : List Nat} {entry : Option Payload} (hstage : visit.stage = .joining ids entry)
    (hdone : ids.all build.isDone = true)
    (hknowledge : next.knowledge = (build.openSubtree visit.component.key).knowledge)
    (hgates : gates? stage = some (.opened, .opened))
    (hknows : ∀ known, Knows known visit.stage → Knows known stage)
    (hjoining : ∀ ids entry, stage ≠ .joining ids entry) :
    ∃ owner', Guarded setting next owner' ∧
      Extends owner owner' visit.component.key index := by
  have hguards := h.guards hstep.found howner
  refine h.own hstep (.inr howner) ⟨?_, ?_, ?_⟩ ?_
  · rw [hknowledge]
    exact ⟨.opened, .opened, hgates, (hguards.gates_eq hstage rfl).1, subtrees_openSubtree build _⟩
  · rw [hknowledge]
    exact hknows _ hguards.knows
  · intro ids' entry' deps hstage'
    exact absurd hstage' (hjoining ids' entry')
  · rw [hknowledge]
    intro deps _ hdeps dep hdep
    exact isSome_withOwner
      (h.complete_of_joined hstep.found howner hstage hdone hdeps hdep)

/-- The gates of a component are closed by the first visit that comes to it. -/
theorem Guarded.own_claim (h : Guarded setting build owner)
    (hstep : Advances setting build index visit [] stage next)
    (hkey : visit.component.key ∉ build.knowledge.nodes)
    (hknowledge : next.knowledge = (build.close visit.component.key).knowledge)
    (hgates : gates? stage = some (.closed, .closed)) (hknows : Knows none stage)
    (hjoining : ∀ ids entry, stage ≠ .joining ids entry) :
    ∃ owner', Guarded setting next owner' ∧
      Extends owner owner' visit.component.key index := by
  have hnone : owner visit.component.key = none := by
    have := mt (h.isSome_iff visit.component.key).1 hkey
    simpa using this
  refine h.own hstep (.inl hnone) ⟨?_, ?_, ?_⟩ ?_
  · rw [hknowledge]
    exact ⟨.closed, .closed, hgates, nodes_close build _, subtrees_close build _⟩
  · rw [hknowledge, deps_close, (h.unmet _ hnone).2.2]
    exact hknows
  · intro ids entry deps hstage
    exact absurd hstage (hjoining ids entry)
  · rw [hknowledge, subtrees_close]
    intro deps hopened
    cases hopened

/-- What a step makes of the owners. -/
theorem Guarded.advance (h : Guarded setting build owner)
    (hstep : Advances setting build index visit children stage next) :
    ∃ owner', Guarded setting next owner' ∧
      Extends owner owner' visit.component.key index := by
  have hmove := hstep.move
  generalize hknowledge : next.knowledge = knowledge at hmove
  generalize hcache : next.cache = cache at hmove
  cases hmove with
  | wait hstage hkey =>
      have hmet := (h.isSome_iff visit.component.key).2 hkey
      have hother := h.not_owner hstep.found hstage rfl
      exact h.idle hstep hknowledge hmet hother (.inl rfl)
  | release hstage hgate =>
      have hother := h.not_owner hstep.found hstage rfl
      have hmet : (owner visit.component.key).isSome := by
        rcases h.others index visit hstep.found hother with harriving | ⟨-, hsome⟩
        · rw [hstage] at harriving
          cases harriving
        · exact hsome
      exact h.idle hstep hknowledge hmet hother (.inr rfl)
  | claimKnown deps hstage hkey hentry =>
      exact h.own_claim hstep hkey hknowledge rfl rfl nofun
  | claimUnknown hstage hkey =>
      exact h.own_claim hstep hkey hknowledge rfl rfl nofun
  | hit deps hstage hheld =>
      have howner := h.owner_eq hstep.found hstage trivial
      have hsubtree := ((h.guards hstep.found howner).gates_eq hstage rfl).2
      exact h.own_joining hstep howner hsubtree (by simp [hknowledge])
        (by simp [hknowledge]) (by simp [hknowledge]) nofun
  | miss deps hstage hheld =>
      have howner := h.owner_eq hstep.found hstage trivial
      exact h.own_quiet hstep howner hknowledge (by simp [hstage, gates?])
        (by simp [hstage, Knows]) nofun
  | lack hstage hrule =>
      have howner := h.owner_eq hstep.found hstage trivial
      exact h.own_quiet hstep howner hknowledge (by simp [hstage, gates?])
        (by simp [hstage, Knows]) nofun
  | send hstage hrule =>
      have howner := h.owner_eq hstep.found hstage trivial
      exact h.own_quiet hstep howner hknowledge (by simp [hstage, gates?])
        (by simp [hstage, Knows]) nofun
  | refuse failure hstage hresponse =>
      have howner := h.owner_eq hstep.found hstage trivial
      exact h.own_quiet hstep howner hknowledge (by simp [hstage, gates?])
        (by simp [hstage, Knows]) nofun
  | takeDependency payload warnings hstage hresponse hchild =>
      have howner := h.owner_eq hstep.found hstage trivial
      obtain ⟨hnode, hsubtree⟩ := (h.guards hstep.found howner).gates_eq hstage rfl
      refine h.own hstep (.inr howner) ⟨?_, ?_, nofun⟩ ?_
      · exact ⟨.closed, .closed, rfl, by simp [hknowledge, hnode],
          by simp [hknowledge, hsubtree]⟩
      · simp [hknowledge, Knows]
      · intro deps hopened
        simp [hknowledge, hsubtree] at hopened
  | takeEntry payload warnings hstage hresponse hchild =>
      have howner := h.owner_eq hstep.found hstage trivial
      have hsubtree := ((h.guards hstep.found howner).gates_eq hstage rfl).2
      refine h.own_joining hstep howner hsubtree (by simp [hknowledge])
        (by simp [hknowledge]) (by simp [hknowledge]) ?_
      intro payload' hpayload
      cases hpayload
      rfl
  | apologize hstage =>
      have howner := h.owner_eq hstep.found hstage trivial
      have hnone := (h.guards hstep.found howner).knows
      rw [hstage] at hnone
      refine h.own hstep (.inr howner) ⟨?_, trivial, nofun⟩ ?_
      · exact ⟨.opened, .opened, rfl, by simp [hknowledge], by simp [hknowledge]⟩
      · intro deps _ hdeps
        rw [hknowledge, deps_openNode, deps_openSubtree, show _ = none from hnone] at hdeps
        cases hdeps
  | writeDependency payload cache hstage hwritten =>
      have howner := h.owner_eq hstep.found hstage trivial
      have hsubtree := ((h.guards hstep.found howner).gates_eq hstage rfl).2
      have hdeps := (h.guards hstep.found howner).knows
      rw [hstage] at hdeps
      exact h.own_joining hstep howner hsubtree (by simp [hknowledge])
        (by simp [hknowledge]) (by rw [hknowledge]; exact hdeps) nofun
  | joinDependency ids hstage hdone =>
      have howner := h.owner_eq hstep.found hstage trivial
      exact h.own_joined hstep howner hstage hdone hknowledge rfl
        (fun _ _ => trivial) nofun
  | joinEntry ids payload hstage hdone =>
      have howner := h.owner_eq hstep.found hstage trivial
      exact h.own_joined hstep howner hstage hdone hknowledge rfl
        (by simp [hstage, Knows]) nofun
  | pass payload gathering reference pending hstage hpending hseen =>
      have howner := h.owner_eq hstep.found hstage trivial
      exact h.own_quiet hstep howner hknowledge (by simp [hstage, gates?])
        (by simp [hstage, Knows]) nofun
  | gather payload gathering reference pending hstage hpending hseen hgate =>
      have howner := h.owner_eq hstep.found hstage trivial
      exact h.own_quiet hstep howner hknowledge (by simp [hstage, gates?])
        (by simp [hstage, Knows]) nofun
  | writeEntry payload gathering cache hstage hpending hwritten =>
      have howner := h.owner_eq hstep.found hstage trivial
      exact h.own_quiet hstep howner hknowledge (by simp [hstage, gates?])
        (fun _ _ => trivial) nofun

theorem guarded_start (setting : BuildSetting) (cache : Cache) (disk : Disk) :
    Guarded setting (Build.start cache disk) fun _ => none where
  unmet key _ := by simp [Build.start, Knowledge.none]
  owned key i howner := nomatch howner
  others i visit hvisit := by simp [Build.start] at hvisit
  ancestors i visit hvisit := by simp [Build.start] at hvisit
  complete key deps hopened := by simp [Build.start, Knowledge.none] at hopened

theorem getElem?_begin {components : List NamedReference}
    (hvisit : (build.begin components).visits[i]? = some visit) :
    build.visits[i]? = some visit ∨ visit.stage = .arriving ∧ visit.ancestors = [] ∧
      visit.run = build.reports.length := by
  rw [Build.begin, List.getElem?_append] at hvisit
  split at hvisit
  · exact .inl hvisit
  · obtain ⟨component, -, rfl⟩ := List.mem_map.1 (List.mem_of_getElem? hvisit)
    exact .inr ⟨rfl, rfl, rfl⟩

theorem getElem?_begin_of_some (components : List NamedReference)
    (hvisit : build.visits[i]? = some visit) :
    (build.begin components).visits[i]? = some visit := by
  rw [Build.begin, List.getElem?_append_left (List.getElem?_eq_some_iff.1 hvisit).1, hvisit]

theorem Guarded.begin (h : Guarded setting build owner) (components : List NamedReference) :
    Guarded setting (build.begin components) owner where
  unmet := h.unmet
  owned key i howner := by
    obtain ⟨visit, hvisit, hkey, hguards⟩ := h.owned key i howner
    refine ⟨visit, getElem?_begin_of_some components hvisit, hkey, hguards.gates, hguards.knows, ?_⟩
    intro ids entry deps hstage hdeps dep hdep
    refine (hguards.met ids entry deps hstage hdeps dep hdep).imp_right ?_
    rintro ⟨id, hid, child, hchild, hchildKey⟩
    exact ⟨id, hid, child, getElem?_begin_of_some components hchild, hchildKey⟩
  others i visit hvisit howner := by
    rcases getElem?_begin hvisit with hold | ⟨hstage, -, -⟩
    · exact h.others i visit hold howner
    · exact .inl hstage
  ancestors i visit hvisit key hkey := by
    rcases getElem?_begin hvisit with hold | ⟨-, hnone, -⟩
    · exact h.ancestors i visit hold key hkey
    · rw [hnone] at hkey
      cases hkey
  complete := h.complete

end Steps

end ComponentTags.Build
