import ComponentTags.Proofs.Build.Outcomes
import ComponentTags.Proofs.Build.Reach
import ComponentTags.Proofs.Build.Requests

/-!
Findings. A call that finds in the cache all that it comes to, and the modules at their places, asks for
nothing and changes nothing, and it comes to an end whatever the endpoint is.
-/

namespace ComponentTags.Build

/-- A call finds some components, which are closed under what they need, and asks for these alone. -/
structure Call.FindsAll (call : Call) (keys : ComponentKey → Prop) : Prop where
  asked : ∀ reference ∈ call.references, keys (call.naming.key reference)
  found : ∀ key, keys key → ∃ deps, call.cache.get? key = some { success := true, deps } ∧
    call.disk.holds (call.naming.modulePath key) = true ∧
      ∀ dep ∈ deps, keys (childKey call.setting key dep)

/-- A stage of a visit that finds its component, as the cache of the call says. -/
def IsFinding (call : Call) (visit : Visit) : Prop :=
  match visit.stage with
  | .arriving | .waiting | .joining _ none | .done => True
  | .looking deps => call.cache.get? visit.component.key = some { success := true, deps }
  | _ => False

/-- What holds of a build that finds everything. -/
structure Rests (call : Call) (keys : ComponentKey → Prop) (build : Build) : Prop where
  faithful : AllFaithful call.setting build
  requests : build.requests = []
  disk : build.disk = call.disk
  cache : build.cache = call.cache
  reports : ∃ cacheHits cycles, build.reports = [{ Report.zero with cacheHits, cycles }]
  finding : ∀ visit ∈ build.visits, IsFinding call visit
  keys : ∀ visit ∈ build.visits, keys visit.component.key

section Steps

variable {call : Call} {keys : ComponentKey → Prop} {build next : Build} {index : Nat}
  {visit : Visit} {children : List Visit} {stage : Stage} {knowledge : Knowledge} {cache : Cache}

theorem ensure_eq_self {key : ComponentKey} {entry : CacheEntry} (h : cache.get? key = some entry) :
    cache.ensure key = cache := by
  have hentries : cache.entries.insertIfNew key .unknown = cache.entries := by
    refine Std.ExtTreeMap.ext_getElem? fun other => ?_
    rw [Std.ExtTreeMap.getElem?_insertIfNew]
    split
    · next hnew =>
        have hmem : key ∈ cache.entries :=
          Std.ExtTreeMap.mem_iff_isSome_getElem?.2 (by rw [show cache.entries[key]? = _ from h]; rfl)
        exact absurd hmem hnew.2
    · rfl
  rw [Cache.ensure, hentries]

theorem rests_opening (h : call.FindsAll keys) : Rests call keys call.opening where
  faithful := (fits_opening call).faithful
  requests := rfl
  disk := rfl
  cache := rfl
  reports := ⟨0, 0, rfl⟩
  finding visit hvisit := by
    obtain ⟨i, hi⟩ := List.mem_iff_getElem?.1 hvisit
    obtain ⟨-, -, -, -, harriving⟩ := Call.visit_opening hi
    rw [IsFinding, harriving]
    trivial
  keys visit hvisit := by
    obtain ⟨i, hi⟩ := List.mem_iff_getElem?.1 hvisit
    have hkey := ((fits_opening call).faithful i visit hi).key
    rw [← hkey]
    exact h.asked _ (Call.visit_opening hi).1

theorem Call.FindsAll.holds (h : call.FindsAll keys) (hkeys : keys visit.component.key)
    (hfaithful : IsFaithful call.setting visit) :
    call.disk.holds visit.component.identity.path = true := by
  obtain ⟨-, -, hheld, -⟩ := h.found _ hkeys
  rw [hfaithful.component]
  rw [← hfaithful.key] at hheld
  exact hheld

/-- A visit that finds its component goes on to find it, and so do those that come up. -/
theorem IsFinding.move (h : IsFinding call visit) (hfinds : call.FindsAll keys)
    (hkeys : keys visit.component.key) (hcache : build.cache = call.cache)
    (hdisk : build.disk = call.disk) (hfaithful : IsFaithful call.setting visit)
    (hqueued : visit.stage = .arriving → visit.component.key ∉ build.knowledge.nodes →
      stage = .queued → ∀ deps,
        build.cache.get? visit.component.key ≠ some { success := true, deps })
    (hmove : Move call.setting build visit knowledge cache children stage) :
    IsFinding call { visit with stage } ∧ ∀ child ∈ children, keys child.component.key := by
  obtain ⟨deps, hcached, -, hneeds⟩ := hfinds.found _ hkeys
  cases hmove with
  | wait hstage hkey => exact ⟨trivial, nofun⟩
  | claimKnown deps' hstage hkey hknown =>
      refine ⟨?_, nofun⟩
      rw [IsFinding, ← hcache]
      exact get?_of_ensure hknown
  | claimUnknown hstage hkey =>
      rw [← hcache] at hcached
      exact absurd hcached (hqueued hstage hkey rfl deps)
  | release hstage hgate => exact ⟨trivial, nofun⟩
  | hit deps' hstage hfound =>
      refine ⟨trivial, fun child hchild => ?_⟩
      rw [IsFinding, hstage] at h
      obtain rfl : deps = deps' := by
        rw [h] at hcached
        cases hcached
        rfl
      obtain ⟨dep, hdep, hcomponent⟩ := exists_dep_of_mem_freshVisits hchild
      have hkey : child.component.key = childKey call.setting visit.component.key dep := by
        rw [hcomponent, key_named_child]
      rw [hkey]
      exact hneeds dep hdep
  | miss deps' hstage hmissing =>
      rw [hdisk] at hmissing
      cases hmissing.symm.trans (hfinds.holds hkeys hfaithful)
  | joinDependency ids hstage hdone => exact ⟨trivial, nofun⟩
  | _ => simp_all [IsFinding]

/-- What a step counts that finds a component. -/
theorem IsFinding.dues_eq (h : IsFinding call visit) (hfinds : call.FindsAll keys)
    (hkeys : keys visit.component.key) (hdisk : build.disk = call.disk)
    (hfaithful : IsFaithful call.setting visit) :
    ∃ cacheHits cycles, dues call.setting build visit = { Report.zero with cacheHits, cycles } := by
  rw [IsFinding] at h
  cases hstage : visit.stage with
  | looking deps' =>
      rw [dues, hstage]
      dsimp only
      rw [hdisk, if_pos (hfinds.holds hkeys hfaithful)]
      exact ⟨1, _, rfl⟩
  | arriving | waiting | done | joining ids entry =>
      rw [dues, hstage]
      exact ⟨0, 0, rfl⟩
  | _ => rw [hstage] at h; cases h

theorem IsFinding.deed?_eq_none (h : IsFinding call visit) : visit.deed? call.setting = none := by
  cases hstage : visit.stage <;> simp_all [IsFinding, Visit.deed?]

theorem IsFinding.asks?_eq_none (h : IsFinding call visit) : asks? call.setting visit = none := by
  cases hstage : visit.stage <;> simp_all [IsFinding, asks?]

theorem IsFinding.cacheAfter_eq (h : IsFinding call visit) {entry : CacheEntry}
    (hcached : build.cache.get? visit.component.key = some entry) :
    cacheAfter call.setting build visit = build.cache := by
  have hensured := ensure_eq_self hcached
  cases hstage : visit.stage <;> simp_all [IsFinding, cacheAfter]

/-- **A step that finds a component changes nothing** but the build itself. -/
theorem Rests.advance (h : Rests call keys build) (hfinds : call.FindsAll keys)
    (hnext : build.step? call.setting index = some next) : Rests call keys next := by
  obtain ⟨visit, children, stage, hstep⟩ := exists_advances hnext
  have hmem := List.mem_of_getElem? hstep.found
  have hvisit := h.faithful index visit hstep.found
  have hfinding := h.finding visit hmem
  have haccounts := accounts_step hstep.found hnext
  obtain ⟨hafter, hchildren⟩ := hfinding.move hfinds (h.keys visit hmem) h.cache h.disk hvisit
    (fun hstage hnew hqueued => get?_ne_of_queued hstep.found hstage hnew hnext
      (by rw [hstep.own, hqueued])) hstep.move
  refine ⟨h.faithful.advance hstep, ?_, ?_, ?_, ?_, ?_, ?_⟩
  · rw [requests_step hstep.found hnext, h.requests, hfinding.asks?_eq_none]
    rfl
  · rw [hstep.disk, hfinding.deed?_eq_none]
    exact h.disk
  · obtain ⟨deps, hcached, -⟩ := hfinds.found _ (h.keys visit hmem)
    rw [haccounts.cache, ← h.cache]
    rw [← h.cache] at hcached
    exact hfinding.cacheAfter_eq hcached
  · obtain ⟨cacheHits, cycles, hreports⟩ := h.reports
    obtain ⟨more, others, hdues⟩ := hfinding.dues_eq hfinds (h.keys visit hmem) h.disk hvisit
    rw [haccounts.reports, hreports, hdues]
    cases visit.run with
    | zero => exact ⟨cacheHits + more, cycles + others, rfl⟩
    | succ run => exact ⟨cacheHits, cycles, by simp⟩
  · intro other hother
    rcases hstep.mem_cases hother with rfl | hbefore | hchild
    · exact hafter
    · exact h.finding other hbefore
    · rw [IsFinding, hchild.stage]
      trivial
  · intro other hother
    obtain ⟨i, hi⟩ := List.mem_iff_getElem?.1 hother
    cases hwas : build.visits[i]? with
    | none => exact hchildren other (hstep.mem_children hi hwas)
    | some before =>
        obtain ⟨stage', hlater⟩ := hstep.remains hwas
        obtain rfl := Option.some.inj (hi.symm.trans hlater)
        exact h.keys before (List.mem_of_getElem? hwas)

end Steps

section Runs

variable {call : Call} {keys : ComponentKey → Prop} {build : Build} {turns : List Turn}
  {owner : ComponentKey → Option Nat} {key : ComponentKey}

/-- A run that finds everything rests at each of its turns. -/
theorem Rests.of_run (hfinds : call.FindsAll keys)
    (hrun : Run call.setting call.opening turns build) (halone : build.reports.length = 1) :
    Rests call keys build ∧ ∀ turn ∈ turns, Rests call keys turn.before := by
  refine hrun.induction_alone (motive := fun turns build => Rests call keys build ∧
    ∀ turn ∈ turns, Rests call keys turn.before) ?_ ?_ halone
  · exact ⟨rests_opening hfinds, nofun⟩
  · rintro turns build index next hrun hnext ⟨hrests, hbefore⟩
    refine ⟨hrests.advance hfinds hnext, ?_⟩
    exact List.forall_mem_cons.2 ⟨hrests, hbefore⟩

/-- What is shown in a run that finds everything is what the cache says. -/
theorem Rests.cached_of_learned (hbefore : ∀ turn ∈ turns, Rests call keys turn.before)
    {deps : List Dependency} (hlearned : Learned call.setting call.cache turns key deps) :
    call.cache.get? key = some { success := true, deps } := by
  cases hlearned with
  | hit hturn hhit hkey hcache => exact hcache
  | fetched hturn hfetch hkey hdeps =>
      have hfinding := (hbefore _ hturn).finding _ (List.mem_of_getElem? hfetch.1)
      rw [IsFinding, hfetch.2.1] at hfinding
      cases hfinding

theorem Rests.not_failed (hbefore : ∀ turn ∈ turns, Rests call keys turn.before) :
    ¬Failed call.setting turns key := by
  rintro ⟨turn, hturn, visit, ⟨hvisit, hfails⟩, -⟩
  have hfinding := (hbefore turn hturn).finding visit (List.mem_of_getElem? hvisit)
  rcases hfails with ⟨hstage, -⟩ | ⟨hstage, -⟩ <;> rw [IsFinding, hstage] at hfinding <;>
    cases hfinding

/-- What a call that finds everything has met when it is over: what it asks for, and all that the
cache says that this needs. -/
theorem Tracked.needs_iff_cached (h : Tracked call.setting call.cache turns build owner)
    (hbefore : ∀ turn ∈ turns, Rests call keys turn.before) (hfinished : build.isFinished = true)
    (hmet : (owner key).isSome) {deps : List Dependency} :
    Learned call.setting call.cache turns key deps ↔
      call.cache.get? key = some { success := true, deps } := by
  refine ⟨Rests.cached_of_learned hbefore, fun hcached => ?_⟩
  obtain ⟨i, visit, hvisit, rfl, hown, hdone, -⟩ :=
    h.sound.guarded.opened_of_isFinished hfinished hmet
  cases hdeps : build.knowledge.deps[visit.component.key]? with
  | none =>
      exact absurd (h.sound.lost.failing i visit hvisit hown (.inr ⟨hdone, hdeps⟩))
        (Rests.not_failed hbefore)
  | some known =>
      have hlearned := h.sound.taught.known _ known hdeps
      have hsame := Rests.cached_of_learned hbefore hlearned
      rw [hcached] at hsame
      cases hsame
      exact hlearned

end Runs

/-! ### That it ends -/

/-- The same setting with an endpoint that never answers, and a slot for it. -/
def silent (setting : BuildSetting) : BuildSetting :=
  { setting with endpoint := fun _ => none, slots := 1 }

section Silence

variable {call : Call} {keys : ComponentKey → Prop} {build last : Build} {turns : List Turn}
  {index : Nat}

theorem Rests.step?_silent (h : Rests call keys build) :
    build.step? (silent call.setting) index = build.step? call.setting index := by
  unfold step?
  cases hvisit : build.visits[index]? with
  | none => rfl
  | some visit =>
      have hfinding := h.finding visit (List.mem_of_getElem? hvisit)
      rw [IsFinding] at hfinding
      dsimp only
      cases hstage : visit.stage with
      | queued | requesting | failing | writing payload | gathering payload gathering =>
          rw [hstage] at hfinding
          cases hfinding
      | _ => rfl

/-- With an endpoint that never answers only the cache tells what is needed, which is not much. -/
theorem finite_silent (setting : BuildSetting) (cache : Cache) (root : Reference) :
    {reference | Relation.ReflTransGen (MayNeed (silent setting) cache) root reference}.Finite := by
  let deps := cache.entries.toList.flatMap fun pair => pair.2.deps
  refine (List.finite_toSet (root :: deps.map root.child)).subset ?_
  have htag : ∀ reference ∈ root :: deps.map root.child, reference.tag = root.tag := by
    intro reference hmem
    rcases List.mem_cons.1 hmem with rfl | hchild
    · rfl
    · obtain ⟨dep, -, rfl⟩ := List.mem_map.1 hchild
      rfl
  intro reference hreach
  induction hreach with
  | refl => exact List.mem_cons_self
  | @tail middle reference _ hneeds ih =>
      obtain ⟨known, hcached | ⟨payload, ⟨_, _, _, hanswer⟩, _⟩, dep, hdep, rfl⟩ := hneeds
      · refine List.mem_cons_of_mem _ (List.mem_map.2 ⟨dep, List.mem_flatMap.2 ⟨_,
          Std.ExtTreeMap.mem_toList_iff_getElem?_eq_some.2 hcached, hdep⟩, ?_⟩)
        exact child_eq_of_tag (htag middle ih).symm dep
      · cases hanswer

/-- **A call that finds everything comes to an end**, in whatever order turns were taken so far. Its
steps are those that it takes with an endpoint that never answers, where little may come up. -/
theorem Rests.exists_finished (hfinds : call.FindsAll keys)
    (hrun : Run call.setting call.opening turns build) (halone : build.reports.length = 1) :
    ∃ last, Relation.ReflTransGen (StepsTo call.setting) build last ∧ last.isFinished = true := by
  let still : Call := { call with setting := silent call.setting }
  have hsteps : Relation.ReflTransGen (StepsTo still.setting) still.opening build ∧
      Rests call keys build := by
    refine hrun.induction_alone (motive := fun _ build =>
      Relation.ReflTransGen (StepsTo still.setting) still.opening build ∧
        Rests call keys build) ?_ ?_ halone
    · exact ⟨.refl, rests_opening hfinds⟩
    · rintro turns build index next - hnext ⟨hsteps, hrests⟩
      exact ⟨hsteps.tail ⟨index, hrests.step?_silent.trans hnext⟩, hrests.advance hfinds hnext⟩
  obtain ⟨hbefore, hrests⟩ := hsteps
  obtain ⟨last, hafter, hfinished⟩ := still.exists_finished Nat.one_pos
    (fun root _ => finite_silent call.setting call.cache root) hbefore
  suffices hloud : Relation.ReflTransGen (StepsTo call.setting) build last ∧ Rests call keys last
    from ⟨last, hloud.1, hfinished⟩
  clear hfinished
  induction hafter with
  | refl => exact ⟨.refl, hrests⟩
  | tail _ hstep ih =>
      obtain ⟨index, hnext⟩ := hstep
      obtain ⟨hloud, hrests⟩ := ih
      rw [hrests.step?_silent] at hnext
      exact ⟨hloud.tail ⟨index, hnext⟩, hrests.advance hfinds hnext⟩

end Silence

end ComponentTags.Build
