import ComponentTags.Proofs.Build.Gates

/-!
Lessons. What a build knows of a component's needs is what one of its turns showed: the endpoint served
the component, or the cache knew it and its module was there. A component that could not be had is not
known to need anything.
-/

namespace ComponentTags.Build

namespace Turn

/-- The endpoint serves the component of the visit. -/
def Fetches (setting : BuildSetting) (turn : Turn) (visit : Visit) (payload : Payload) : Prop :=
  turn.visit? = some visit ∧ visit.stage = .requesting ∧
    ∃ warnings, response setting visit = .ok (payload, warnings)

/-- The module of the visit's component is there, as the cache says. -/
def Hits (turn : Turn) (visit : Visit) (deps : List Dependency) : Prop :=
  turn.visit? = some visit ∧ visit.stage = .looking deps ∧
    turn.before.disk.holds visit.component.identity.path = true

/-- The component of the visit cannot be had: its tag has no endpoint, or the request failed. -/
def Fails (setting : BuildSetting) (turn : Turn) (visit : Visit) : Prop :=
  turn.visit? = some visit ∧
    (visit.stage = .queued ∧ setting.registry.find? visit.component.reference.tag = none ∨
      visit.stage = .requesting ∧ ∃ failure, response setting visit = .error failure)

/-- The visit is the first of its component, and not there for another one. -/
def ClaimsEntry (turn : Turn) (visit : Visit) : Prop :=
  turn.visit? = some visit ∧ visit.stage = .arriving ∧ visit.isChild = false ∧
    visit.component.key ∉ turn.before.knowledge.nodes

end Turn

/-- Some turn showed what the component with that key needs; `cache` is the one at the start. -/
inductive Learned (setting : BuildSetting) (cache : Cache) (turns : List Turn) (key : ComponentKey)
    (deps : List Dependency) : Prop where
  | fetched {turn : Turn} {visit : Visit} {payload : Payload} (hturn : turn ∈ turns)
      (hfetch : turn.Fetches setting visit payload) (hkey : visit.component.key = key)
      (hdeps : payload.deps = deps) : Learned setting cache turns key deps
  | hit {turn : Turn} {visit : Visit} (hturn : turn ∈ turns) (hhit : turn.Hits visit deps)
      (hkey : visit.component.key = key)
      (hcache : cache.get? key = some { success := true, deps }) :
      Learned setting cache turns key deps

/-- The component with that key could not be had in some turn. -/
def Failed (setting : BuildSetting) (turns : List Turn) (key : ComponentKey) : Prop :=
  ∃ turn ∈ turns, ∃ visit, turn.Fails setting visit ∧ visit.component.key = key

/-- Some turn came to the component with that key first, and not for another one. -/
def ClaimedEntry (turns : List Turn) (key : ComponentKey) : Prop :=
  ∃ turn ∈ turns, ∃ visit, turn.ClaimsEntry visit ∧ visit.component.key = key

section Monotone

variable {setting : BuildSetting} {cache : Cache} {turns : List Turn} {key : ComponentKey}
  {deps : List Dependency} {turn : Turn}

theorem Learned.cons (h : Learned setting cache turns key deps) :
    Learned setting cache (turn :: turns) key deps := by
  cases h with
  | fetched hturn hfetch hkey hdeps =>
      exact .fetched (List.mem_cons_of_mem _ hturn) hfetch hkey hdeps
  | hit hturn hhit hkey hcache => exact .hit (List.mem_cons_of_mem _ hturn) hhit hkey hcache

theorem Failed.cons (h : Failed setting turns key) : Failed setting (turn :: turns) key := by
  obtain ⟨old, hold, hfails⟩ := h
  exact ⟨old, List.mem_cons_of_mem _ hold, hfails⟩

theorem ClaimedEntry.cons (h : ClaimedEntry turns key) : ClaimedEntry (turn :: turns) key := by
  obtain ⟨old, hold, hclaims⟩ := h
  exact ⟨old, List.mem_cons_of_mem _ hold, hclaims⟩

end Monotone

/-! ### What a step shows -/

section Steps

variable {setting : BuildSetting} {build next : Build} {owner : ComponentKey → Option Nat}
  {index i : Nat} {visit other : Visit} {children : List Visit} {stage : Stage}
  {knowledge : Knowledge} {start cache : Cache} {turns : List Turn} {key : ComponentKey}
  {deps : List Dependency}

theorem Move.deps_cases (h : Move setting build visit knowledge cache children stage) :
    knowledge.deps = build.knowledge.deps ∨
      ∃ deps, knowledge.deps[visit.component.key]? = some deps ∧
        ((visit.stage = .looking deps ∧
            build.disk.holds visit.component.identity.path = true) ∨
          visit.stage = .requesting ∧ ∃ payload warnings,
            response setting visit = .ok (payload, warnings) ∧ payload.deps = deps) := by
  cases h with
  | hit deps hstage hheld => exact .inr ⟨deps, by simp, .inl ⟨hstage, hheld⟩⟩
  | takeDependency payload warnings hstage hresponse hchild =>
      exact .inr ⟨payload.deps, by simp, .inr ⟨hstage, payload, warnings, hresponse, rfl⟩⟩
  | takeEntry payload warnings hstage hresponse hchild =>
      exact .inr ⟨payload.deps, by simp, .inr ⟨hstage, payload, warnings, hresponse, rfl⟩⟩
  | _ => exact .inl rfl

theorem Move.deps_of_hit (h : Move setting build visit knowledge cache children stage)
    (hstage : visit.stage = .looking deps)
    (hheld : build.disk.holds visit.component.identity.path = true) :
    knowledge.deps[visit.component.key]? = some deps := by
  cases h with
  | hit deps' hstage' hheld' =>
      rw [hstage] at hstage'
      cases hstage'
      simp
  | miss deps' hstage' hheld' =>
      rw [hheld] at hheld'
      cases hheld'
  | _ => simp_all

theorem Move.deps_of_fetch (h : Move setting build visit knowledge cache children stage)
    (hstage : visit.stage = .requesting) {payload : Payload} {warnings : List Warning}
    (hresponse : response setting visit = .ok (payload, warnings)) :
    knowledge.deps[visit.component.key]? = some payload.deps := by
  cases h with
  | takeDependency payload' warnings' hstage' hresponse' hchild =>
      rw [hresponse] at hresponse'
      cases hresponse'
      simp
  | takeEntry payload' warnings' hstage' hresponse' hchild =>
      rw [hresponse] at hresponse'
      cases hresponse'
      simp
  | refuse failure hstage' hresponse' =>
      rw [hresponse] at hresponse'
      cases hresponse'
  | _ => simp_all

/-- What is known of a component's needs never changes again. -/
theorem Guarded.deps_kept (h : Guarded setting build owner)
    (hstep : Advances setting build index visit children stage next)
    (hdeps : build.knowledge.deps[key]? = some deps) :
    next.knowledge.deps[key]? = some deps := by
  by_cases heq : key = visit.component.key
  · subst heq
    rcases hstep.move.deps_cases with hsame | ⟨deps', -, hstage⟩
    · rw [hsame, hdeps]
    · exfalso
      have hguards : ∀ {stage' : Stage}, visit.stage = stage' → IsUnderWay stage' →
          Knows (some deps) stage' := by
        rintro _ rfl hway
        have hknows := (h.guards hstep.found (h.owner_eq hstep.found rfl hway)).knows
        rwa [hdeps] at hknows
      rcases hstage with ⟨hlooking, -⟩ | ⟨hrequesting, -⟩
      · cases hguards hlooking trivial
      · cases hguards hrequesting trivial
  · rw [hstep.move.agreesOff.deps key heq, hdeps]

/-! ### Lessons over a run -/

theorem Move.cache_get? (h : Move setting build visit knowledge cache children stage)
    (hne : key ≠ visit.component.key) : cache.get? key = build.cache.get? key := by
  have hensure : (build.cache.ensure visit.component.key).get? key = build.cache.get? key := by
    simp [Cache.ensure, Cache.get?, Std.ExtTreeMap.getElem?_insertIfNew, Ne.symm hne]
  have hrecord : ∀ deps,
      (build.cache.recordSuccess visit.component.key deps).get? key = build.cache.get? key := by
    intro deps
    simp [Cache.recordSuccess, Cache.get?, Std.ExtTreeMap.getElem?_insert, Ne.symm hne]
  cases h with
  | claimKnown | claimUnknown => exact hensure
  | writeDependency payload cache hstage hcache =>
      rcases hcache with rfl | rfl
      · rfl
      · exact hrecord _
  | writeEntry payload gathering cache hstage hpending hcache =>
      rcases hcache with rfl | rfl
      · rfl
      · exact hrecord _
  | _ => rfl

theorem get?_of_ensure (h : (cache.ensure key).get? key = some { success := true, deps }) :
    cache.get? key = some { success := true, deps } := by
  unfold Cache.get? Cache.ensure at h
  rw [Std.ExtTreeMap.getElem?_insertIfNew] at h
  split at h
  · cases h
  · exact h

/-- What a build knows, and what the turns that led to it showed; `start` is the cache at the start. -/
structure Taught (setting : BuildSetting) (start : Cache) (turns : List Turn) (build : Build)
    (owner : ComponentKey → Option Nat) : Prop where
  learned : ∀ key deps, Learned setting start turns key deps →
    build.knowledge.deps[key]? = some deps
  known : ∀ key deps, build.knowledge.deps[key]? = some deps →
    Learned setting start turns key deps
  looking : ∀ (i : Nat) (visit : Visit) (deps : List Dependency), build.visits[i]? = some visit →
    visit.stage = .looking deps →
      start.get? visit.component.key = some { success := true, deps }
  unmet : ∀ key, owner key = none → build.cache.get? key = start.get? key

theorem Move.looking (h : Move setting build visit knowledge cache children (.looking deps)) :
    visit.component.key ∉ build.knowledge.nodes ∧
      build.cache.get? visit.component.key = some { success := true, deps } := by
  cases h with
  | claimKnown deps hstage hkey hcache => exact ⟨hkey, get?_of_ensure hcache⟩

theorem Taught.learned_cons (h : Taught setting start turns build owner)
    (hguarded : Guarded setting build owner)
    (hstep : Advances setting build index visit children stage next)
    (hlearned : Learned setting start (⟨build, index⟩ :: turns) key deps) :
    next.knowledge.deps[key]? = some deps := by
  cases hlearned with
  | @fetched turn shown payload hturn hfetch hkey hdeps =>
      rcases List.mem_cons.1 hturn with rfl | hold
      · obtain ⟨hshown, hstage, warnings, hresponse⟩ := hfetch
        obtain rfl : shown = visit := Option.some.inj (hshown.symm.trans hstep.found)
        subst hkey hdeps
        exact hstep.move.deps_of_fetch hstage hresponse
      · exact hguarded.deps_kept hstep (h.learned key deps (.fetched hold hfetch hkey hdeps))
  | @hit turn shown hturn hhit hkey hcache =>
      rcases List.mem_cons.1 hturn with rfl | hold
      · obtain ⟨hshown, hstage, hheld⟩ := hhit
        obtain rfl : shown = visit := Option.some.inj (hshown.symm.trans hstep.found)
        subst hkey
        exact hstep.move.deps_of_hit hstage hheld
      · exact hguarded.deps_kept hstep (h.learned key deps (.hit hold hhit hkey hcache))

theorem Taught.known_cons (h : Taught setting start turns build owner)
    (hstep : Advances setting build index visit children stage next)
    (hdeps : next.knowledge.deps[key]? = some deps) :
    Learned setting start (⟨build, index⟩ :: turns) key deps := by
  by_cases heq : key = visit.component.key
  · subst heq
    rcases hstep.move.deps_cases with hsame | ⟨deps', hdeps', hshown⟩
    · rw [hsame] at hdeps
      exact (h.known _ deps hdeps).cons
    · obtain rfl : deps' = deps := Option.some.inj (hdeps'.symm.trans hdeps)
      rcases hshown with ⟨hstage, hheld⟩ | ⟨hstage, payload, warnings, hresponse, hpayload⟩
      · exact .hit List.mem_cons_self ⟨hstep.found, hstage, hheld⟩ rfl
          (h.looking index visit deps' hstep.found hstage)
      · exact .fetched List.mem_cons_self ⟨hstep.found, hstage, warnings, hresponse⟩ rfl hpayload
  · rw [hstep.move.agreesOff.deps key heq] at hdeps
    exact (h.known key deps hdeps).cons

theorem Taught.advance (h : Taught setting start turns build owner)
    (hguarded : Guarded setting build owner)
    (hstep : Advances setting build index visit children stage next)
    {owner' : ComponentKey → Option Nat}
    (howner : Extends owner owner' visit.component.key index) :
    Taught setting start (⟨build, index⟩ :: turns) next owner' where
  learned _ _ hlearned := h.learned_cons hguarded hstep hlearned
  known _ _ hdeps := h.known_cons hstep hdeps
  looking i other deps hother hstage := by
    rcases hstep.visit_cases hother with ⟨-, rfl⟩ | ⟨-, hkept⟩ | ⟨-, -, hchild⟩
    · cases hstage
      obtain ⟨hkey, hcache⟩ := hstep.move.looking
      have hnone : owner visit.component.key = none := by
        simpa using mt (hguarded.isSome_iff visit.component.key).1 hkey
      rw [← h.unmet _ hnone, hcache]
    · exact h.looking i other deps hkept hstage
    · rw [hchild.stage] at hstage
      cases hstage
  unmet key hnone := by
    obtain ⟨hold, hne⟩ := howner.of_none hnone
    rw [hstep.move.cache_get? hne, h.unmet key hold]

/-! ### Failures over a run -/

theorem Move.fails (h : Move setting build visit knowledge cache children stage)
    (hfails : visit.stage = .queued ∧
        setting.registry.find? visit.component.reference.tag = none ∨
      visit.stage = .requesting ∧ ∃ failure, response setting visit = .error failure) :
    stage = .failing ∧ knowledge = build.knowledge := by
  cases h with
  | lack | refuse => exact ⟨rfl, rfl⟩
  | send hstage hrule =>
      rcases hfails with ⟨-, hnone⟩ | ⟨hrequesting, -⟩
      · exact absurd hnone hrule
      · rw [hstage] at hrequesting
        cases hrequesting
  | takeDependency payload warnings hstage hresponse hchild =>
      rcases hfails with ⟨hqueued, -⟩ | ⟨-, failure, hfailure⟩
      · rw [hstage] at hqueued
        cases hqueued
      · rw [hresponse] at hfailure
        cases hfailure
  | takeEntry payload warnings hstage hresponse hchild =>
      rcases hfails with ⟨hqueued, -⟩ | ⟨-, failure, hfailure⟩
      · rw [hstage] at hqueued
        cases hqueued
      · rw [hresponse] at hfailure
        cases hfailure
  | _ => simp_all

theorem Move.of_arriving (h : Move setting build visit knowledge cache children stage)
    (harriving : visit.stage = .arriving) : stage ≠ .failing ∧ stage ≠ .done := by
  cases h with
  | wait | claimKnown | claimUnknown => exact ⟨nofun, nofun⟩
  | _ => simp_all

theorem Guarded.deps_none (h : Guarded setting build owner)
    (hstep : Advances setting build index visit children stage next)
    (hnone : next.knowledge.deps[key]? = none) : build.knowledge.deps[key]? = none := by
  cases hdeps : build.knowledge.deps[key]? with
  | none => rfl
  | some deps =>
      rw [h.deps_kept hstep hdeps] at hnone
      cases hnone

/-- Visits that close or guard nothing do not learn anything. -/
theorem Guarded.deps_eq (h : Guarded setting build owner)
    (hstep : Advances setting build index visit children stage next)
    (hne : owner visit.component.key ≠ some index) :
    next.knowledge.deps = build.knowledge.deps := by
  rcases hstep.move.deps_cases with hsame | ⟨deps, -, hstage⟩
  · exact hsame
  · rcases hstage with ⟨hlooking, -⟩ | ⟨hrequesting, -⟩
    · exact absurd (h.owner_eq hstep.found hlooking trivial) hne
    · exact absurd (h.owner_eq hstep.found hrequesting trivial) hne

/-- The components that could not be had are those whose visit gave up, and nothing is known of what
they need. -/
structure Lost (setting : BuildSetting) (turns : List Turn) (build : Build)
    (owner : ComponentKey → Option Nat) : Prop where
  failed : ∀ key, Failed setting turns key → ∃ i visit, owner key = some i ∧
    build.visits[i]? = some visit ∧ (visit.stage = .failing ∨ visit.stage = .done) ∧
    build.knowledge.deps[key]? = none
  failing : ∀ (i : Nat) (visit : Visit), build.visits[i]? = some visit →
    owner visit.component.key = some i →
    visit.stage = .failing ∨
      visit.stage = .done ∧ build.knowledge.deps[visit.component.key]? = none →
    Failed setting turns visit.component.key

theorem Lost.failed_cons (h : Lost setting turns build owner)
    (hguarded : Guarded setting build owner)
    (hstep : Advances setting build index visit children stage next)
    {owner' : ComponentKey → Option Nat}
    (howner : Extends owner owner' visit.component.key index)
    (hfailed : Failed setting (⟨build, index⟩ :: turns) key) :
    ∃ i visit, owner' key = some i ∧ next.visits[i]? = some visit ∧
      (visit.stage = .failing ∨ visit.stage = .done) ∧ next.knowledge.deps[key]? = none := by
  obtain ⟨turn, hturn, shown, ⟨hshown, hfails⟩, rfl⟩ := hfailed
  rcases List.mem_cons.1 hturn with rfl | hold
  · obtain rfl : shown = visit := Option.some.inj (hshown.symm.trans hstep.found)
    obtain ⟨rfl, hknowledge⟩ := hstep.move.fails hfails
    have hself : owner shown.component.key = some index := by
      rcases hfails with ⟨hstage, -⟩ | ⟨hstage, -⟩
      · exact hguarded.owner_eq hstep.found hstage trivial
      · exact hguarded.owner_eq hstep.found hstage trivial
    have hknows := (hguarded.guards hstep.found hself).knows
    refine ⟨index, _, howner.kept _ _ hself, hstep.own, .inl rfl, ?_⟩
    rw [hknowledge]
    rcases hfails with ⟨hstage, -⟩ | ⟨hstage, -⟩
    · rw [hstage] at hknows
      exact hknows
    · rw [hstage] at hknows
      exact hknows
  · obtain ⟨i, found, hfound, hvisit, hstage, hdeps⟩ :=
      h.failed _ ⟨turn, hold, shown, ⟨hshown, hfails⟩, rfl⟩
    by_cases heq : i = index
    · subst heq
      obtain rfl : visit = found := Option.some.inj (hstep.found.symm.trans hvisit)
      refine ⟨i, _, howner.kept _ _ hfound, hstep.own, ?_⟩
      have hmove := hstep.move
      generalize next.knowledge = knowledge at hmove ⊢
      generalize next.cache = cache at hmove
      cases hmove with
      | apologize hfailing => exact ⟨.inr rfl, hdeps⟩
      | _ => simp_all
    · refine ⟨i, found, howner.kept _ _ hfound, hstep.keeps heq hvisit, hstage, ?_⟩
      by_cases hkey : shown.component.key = visit.component.key
      · rw [hguarded.deps_eq hstep, hdeps]
        rw [← hkey, hfound]
        exact fun hsame => heq (Option.some.inj hsame)
      · rw [hstep.move.agreesOff.deps _ hkey, hdeps]

theorem Lost.failing_cons (h : Lost setting turns build owner)
    (hguarded : Guarded setting build owner)
    (hstep : Advances setting build index visit children stage next)
    (howner : owner visit.component.key = some index)
    (hlost : stage = .failing ∨
      stage = .done ∧ next.knowledge.deps[visit.component.key]? = none) :
    Failed setting (⟨build, index⟩ :: turns) visit.component.key := by
  have hguards := hguarded.guards hstep.found howner
  have hnone : stage = .done → build.knowledge.deps[visit.component.key]? = none := by
    rintro rfl
    exact hguarded.deps_none hstep (by simpa using hlost)
  have hfound := hstep.found
  have hmove := hstep.move
  generalize next.knowledge = knowledge at hmove
  generalize next.cache = cache at hmove
  cases hmove with
  | lack hstage hrule =>
      exact ⟨⟨build, index⟩, List.mem_cons_self, visit, ⟨hfound, .inl ⟨hstage, hrule⟩⟩, rfl⟩
  | refuse failure hstage hresponse =>
      exact ⟨⟨build, index⟩, List.mem_cons_self, visit,
        ⟨hfound, .inr ⟨hstage, failure, hresponse⟩⟩, rfl⟩
  | apologize hstage => exact (h.failing index visit hfound howner (.inl hstage)).cons
  | release hstage hgate =>
      exact absurd howner (hguarded.not_owner hfound hstage rfl)
  | joinDependency ids hstage hdone =>
      have hknows := hguards.knows
      rw [hstage, hnone rfl] at hknows
      cases hknows
  | writeEntry payload gathering cache hstage hpending hwritten =>
      have hknows := hguards.knows
      rw [hstage, hnone rfl] at hknows
      cases hknows
  | _ => simp [joiningStage] at hlost

theorem Lost.advance (h : Lost setting turns build owner)
    (hguarded : Guarded setting build owner)
    (hstep : Advances setting build index visit children stage next)
    {owner' : ComponentKey → Option Nat}
    (howner : Extends owner owner' visit.component.key index) :
    Lost setting (⟨build, index⟩ :: turns) next owner' where
  failed _ hfailed := h.failed_cons hguarded hstep howner hfailed
  failing i other hother hown hlost := by
    rcases hstep.visit_cases hother with ⟨rfl, rfl⟩ | ⟨hne, hkept⟩ | ⟨-, -, hchild⟩
    · rcases howner.new _ _ hown with hold | ⟨hnone, -, -⟩
      · have hfailed := h.failing_cons hguarded hstep hold hlost
        exact hfailed
      · rcases hguarded.others i visit hstep.found (by simp [hnone]) with hstage | ⟨-, hsome⟩
        · have hcame := hstep.move.of_arriving hstage
          rcases hlost with hfailing | ⟨hdone, -⟩
          · exact absurd hfailing hcame.1
          · exact absurd hdone hcame.2
        · simp [hnone] at hsome
    · rcases howner.new _ _ hown with hold | ⟨-, -, heq⟩
      · exact (h.failing i other hkept hold
          (hlost.imp_right fun ⟨hdone, hdeps⟩ => ⟨hdone, hguarded.deps_none hstep hdeps⟩)).cons
      · exact absurd heq hne
    · rcases hlost with hstage | ⟨hstage, -⟩
      · rw [hchild.stage] at hstage
        cases hstage
      · rw [hchild.stage] at hstage
        cases hstage

/-! ### First visits over a run -/

/-- The components whose first visit is not there for another component. -/
def Entered (turns : List Turn) (build : Build) (owner : ComponentKey → Option Nat) : Prop :=
  ∀ (i : Nat) (visit : Visit), build.visits[i]? = some visit →
    owner visit.component.key = some i → visit.isChild = false →
      ClaimedEntry turns visit.component.key

theorem Entered.advance (h : Entered turns build owner) (hguarded : Guarded setting build owner)
    (hstep : Advances setting build index visit children stage next)
    {owner' : ComponentKey → Option Nat}
    (howner : Extends owner owner' visit.component.key index) :
    Entered (⟨build, index⟩ :: turns) next owner' := by
  intro i other hother hown hchild
  rcases hstep.visit_cases hother with ⟨rfl, rfl⟩ | ⟨hne, hkept⟩ | ⟨-, -, hnew⟩
  · rcases howner.new _ _ hown with hold | ⟨hnone, -, -⟩
    · exact (h i visit hstep.found hold hchild).cons
    · have hkey : visit.component.key ∉ build.knowledge.nodes := by
        rw [← hguarded.isSome_iff]
        have : owner visit.component.key = none := hnone
        simp [this]
      rcases hguarded.others i visit hstep.found (by simp [hnone]) with hstage | ⟨-, hsome⟩
      · exact ⟨⟨build, i⟩, List.mem_cons_self, visit, ⟨hstep.found, hstage, hchild, hkey⟩, rfl⟩
      · simp [hnone] at hsome
  · rcases howner.new _ _ hown with hold | ⟨-, -, heq⟩
    · exact (h i other hkept hold hchild).cons
    · exact absurd heq hne
  · rw [hnew.isChild] at hchild
    cases hchild

end Steps

end ComponentTags.Build
