import ComponentTags.Proofs.Build.ServedModules

/-!
Recoveries. An entry is not written again when its module is found, so what it registers is what its
build came to know. A component that could not be had by that build may be had later, and then what it
needs is missing.
-/

namespace ComponentTags

/-- What a cache says that the component with that key needs. -/
def Cache.needs (cache : Cache) (key : ComponentKey) : List Dependency :=
  (cache.get? key).elim [] (·.deps)

namespace Build

/-- The component that an event fetches, and what the component needs. -/
def fetched? : Event → Option (ComponentKey × List Dependency)
  | .deletion _ => none
  | .turn setting turn =>
      match turn.visit? with
      | none => none
      | some visit =>
          if visit.stage = .requesting then
            match response setting visit with
            | .error _ => none
            | .ok (payload, _) => some (visit.component.key, payload.deps)
          else none

/-- Some turn of a history fetched the component with that key, which needs those. -/
def Fetched (events : List Event) (key : ComponentKey) (deps : List Dependency) : Prop :=
  (key, deps) ∈ events.filterMap fetched?

/-- Whenever a component is served in a history, it needs the same. -/
def ServedAlike (events : List Event) : Prop :=
  ∀ first ∈ events.filterMap fetched?, ∀ second ∈ events.filterMap fetched?,
    first.1 = second.1 → first.2 = second.2

instance (events : List Event) : Decidable (ServedAlike events) :=
  inferInstanceAs (Decidable (∀ first ∈ events.filterMap fetched?,
    ∀ second ∈ events.filterMap fetched?, first.1 = second.1 → first.2 = second.2))

/-- The turn that wrote the module under a name last since a file of that name was deleted. -/
def lastTurn? (name : String) : List Event → Option (BuildSetting × Turn)
  | [] => none
  | .turn setting turn :: events =>
      match turn.deed? setting with
      | some deed =>
          if setting.workshop.naming.moduleName deed.reference = name ∧
              turn.before.disk.takes setting.workshop deed = true then
            some (setting, turn)
          else lastTurn? name events
      | none => lastTurn? name events
  | .deletion other :: events => if other = name then none else lastTurn? name events

/-- The build of the turn met the component with that key and does not know what it needs. -/
def Turn.Lacks (turn : Turn) (key : ComponentKey) : Prop :=
  key ∈ turn.before.knowledge.nodes ∧ turn.before.knowledge.deps[key]? = none

/-- Some registration is of the component with that key. -/
def Registers (closure : List Registration) (key : ComponentKey) : Prop :=
  ∃ registration ∈ closure, registration.identifier = key.identifier

/-- One component is below another one as the cache has it. -/
def IsBelow (setting : BuildSetting) (cache : Cache) (first second : ComponentKey) : Prop :=
  Relation.TransGen (Needs setting.workshop.naming.key (below cache.needs)) first second

section Events

variable {directory : Path} {events more : List Event} {setting : BuildSetting}
  {build next : Build} {key : ComponentKey} {deps : List Dependency} {index : Nat} {visit : Visit}
  {children : List Visit} {stage : Stage} {knowledge : Knowledge} {cache : Cache}

theorem Fetched.mono (h : Fetched events key deps) (hsub : events ⊆ more) :
    Fetched more key deps := by
  obtain ⟨event, hevent, hfetched⟩ := List.mem_filterMap.1 h
  exact List.mem_filterMap.2 ⟨event, hsub hevent, hfetched⟩

theorem fetched_of_turn {turn : Turn} {payload : Payload} (hturn : .turn setting turn ∈ events)
    (hfetch : turn.Fetches setting visit payload) :
    Fetched events visit.component.key payload.deps := by
  obtain ⟨hvisit, hstage, warnings, hresponse⟩ := hfetch
  refine List.mem_filterMap.2 ⟨_, hturn, ?_⟩
  rw [fetched?, hvisit]
  dsimp only
  rw [if_pos hstage, hresponse]

theorem exists_lastTurn? {name : String} {workshop : Workshop} {deed : Deed}
    (h : lastDeed? name events = some (workshop, deed)) :
    ∃ setting turn, lastTurn? name events = some (setting, turn) ∧ .turn setting turn ∈ events ∧
      setting.workshop = workshop ∧ turn.deed? setting = some deed := by
  induction events with
  | nil => cases h
  | cons event events ih =>
      have hold : lastDeed? name events = some (workshop, deed) → ∃ setting turn,
          lastTurn? name events = some (setting, turn) ∧ .turn setting turn ∈ event :: events ∧
            setting.workshop = workshop ∧ turn.deed? setting = some deed := by
        intro hlast
        obtain ⟨setting, turn, hturn, hmem, hrest⟩ := ih hlast
        exact ⟨setting, turn, hturn, List.mem_cons_of_mem _ hmem, hrest⟩
      cases event with
      | deletion other =>
          rw [lastDeed?] at h
          rw [lastTurn?]
          split at h
          · cases h
          · next hother =>
              rw [if_neg hother]
              exact hold h
      | turn setting turn =>
          rw [lastDeed?] at h
          rw [lastTurn?]
          cases hdeed : turn.deed? setting with
          | none =>
              rw [hdeed] at h
              exact hold h
          | some written =>
              rw [hdeed] at h
              dsimp only at h ⊢
              split at h
              · next htakes =>
                  cases h
                  rw [if_pos htakes]
                  exact ⟨setting, turn, rfl, List.mem_cons_self, rfl, hdeed⟩
              · next hother =>
                  rw [if_neg hother]
                  exact hold h

/-! ### What the cache of a history says -/

theorem Move.cache_cases (h : Move setting build visit knowledge cache children stage) :
    cache = build.cache ∨ cache = build.cache.ensure visit.component.key ∨
      ∃ payload, Build.payload? visit.stage = some payload ∧
        cache = build.cache.recordSuccess visit.component.key payload.deps := by
  cases h with
  | claimKnown | claimUnknown => exact .inr (.inl rfl)
  | writeDependency payload cache hstage hcache =>
      exact hcache.imp_right fun h => .inr ⟨payload, by rw [hstage]; rfl, h⟩
  | writeEntry payload gathering cache hstage hpending hcache =>
      exact hcache.imp_right fun h => .inr ⟨payload, by rw [hstage]; rfl, h⟩
  | _ => exact .inl rfl

theorem Move.fetches (h : Move setting build visit knowledge cache children stage)
    {payload : Payload} (hpayload : Build.payload? stage = some payload) :
    Build.payload? visit.stage = some payload ∨ visit.stage = .requesting ∧
      ∃ warnings, response setting visit = .ok (payload, warnings) := by
  cases h with
  | takeDependency payload' warnings hstage hresponse hchild =>
      cases hpayload
      exact .inr ⟨hstage, warnings, hresponse⟩
  | takeEntry payload' warnings hstage hresponse hchild =>
      cases hpayload
      exact .inr ⟨hstage, warnings, hresponse⟩
  | joinEntry ids payload' hstage hdone =>
      rw [hstage]
      exact .inl hpayload
  | pass payload' gathering reference pending hstage hpending hseen =>
      rw [hstage]
      exact .inl hpayload
  | gather payload' gathering reference pending hstage hpending hseen hgate =>
      rw [hstage]
      exact .inl hpayload
  | _ => cases hpayload

/-- A cache in which every success was fetched, and nothing is known of any other component. -/
def CacheFetched (events : List Event) (cache : Cache) : Prop :=
  ∀ key entry, cache.get? key = some entry →
    entry.success = true ∧ Fetched events key entry.deps ∨ entry = .unknown

theorem CacheFetched.mono (h : CacheFetched events cache) (hsub : events ⊆ more) :
    CacheFetched more cache := fun key entry hentry =>
  (h key entry hentry).imp_left fun ⟨hsuccess, hfetched⟩ => ⟨hsuccess, hfetched.mono hsub⟩

theorem CacheFetched.ensure (h : CacheFetched events cache) (key : ComponentKey) :
    CacheFetched events (cache.ensure key) := by
  intro other entry hentry
  unfold Cache.ensure Cache.get? at hentry
  rw [Std.ExtTreeMap.getElem?_insertIfNew] at hentry
  split at hentry
  · exact .inr (Option.some.inj hentry).symm
  · exact h other entry hentry

theorem CacheFetched.recordSuccess (h : CacheFetched events cache)
    (hfetched : Fetched events key deps) : CacheFetched events (cache.recordSuccess key deps) := by
  intro other entry hentry
  unfold Cache.recordSuccess Cache.get? at hentry
  rw [Std.ExtTreeMap.getElem?_insert] at hentry
  split at hentry
  · next heq =>
      obtain rfl := Option.some.inj hentry
      obtain rfl := Std.LawfulEqOrd.eq_of_compare heq
      exact .inl ⟨rfl, hfetched⟩
  · exact h other entry hentry

theorem CacheFetched.needs (h : CacheFetched events cache) (hneeds : cache.needs key ≠ []) :
    Fetched events key (cache.needs key) := by
  cases hentry : cache.get? key with
  | none => simp [Cache.needs, hentry] at hneeds
  | some entry =>
      rcases h key entry hentry with ⟨-, hfetched⟩ | rfl
      · simpa [Cache.needs, hentry] using hfetched
      · simp [Cache.needs, hentry, CacheEntry.unknown] at hneeds

/-- What a build in a history knows, with the cache and the turns of that build. -/
structure Follows (setting : BuildSetting) (events : List Event) (start : Cache)
    (turns : List Turn) (build : Build) (owner : ComponentKey → Option Nat) : Prop where
  passed : ∀ turn ∈ turns, .turn setting turn ∈ events
  begun : CacheFetched events start
  cache : CacheFetched events build.cache
  carried : ∀ visit ∈ build.visits, ∀ payload, payload? visit.stage = some payload →
    Fetched events visit.component.key payload.deps
  faithful : AllFaithful setting build
  guarded : Guarded setting build owner
  taught : Taught setting start turns build owner
  gather : AllGather setting build owner

section Steps

variable {owner : ComponentKey → Option Nat} {start : Cache} {turns : List Turn}

theorem follows_start (setting : BuildSetting) (disk : Disk) (h : CacheFetched events cache) :
    Follows setting events cache [] (Build.start cache disk) fun _ => none where
  passed turn hturn := nomatch hturn
  begun := h
  cache := h
  carried visit hvisit := nomatch hvisit
  faithful := allFaithful_start setting cache disk
  guarded := guarded_start setting cache disk
  taught := taught_start setting cache disk
  gather i visit payload gathering hvisit := by simp [Build.start] at hvisit

theorem Follows.mono (h : Follows setting events start turns build owner) (hsub : events ⊆ more) :
    Follows setting more start turns build owner :=
  { h with
    passed := fun turn hturn => hsub (h.passed turn hturn)
    begun := h.begun.mono hsub
    cache := h.cache.mono hsub
    carried := fun visit hvisit payload hpayload =>
      (h.carried visit hvisit payload hpayload).mono hsub }

theorem Follows.begin (h : Follows setting events start turns build owner)
    (references : List Reference) :
    Follows setting events start turns (build.begin (references.map (named setting))) owner where
  passed := h.passed
  begun := h.begun
  cache := h.cache
  carried visit hvisit payload hpayload := by
    obtain ⟨i, hi⟩ := List.mem_iff_getElem?.1 hvisit
    rcases getElem?_begin hi with hold | ⟨harriving, -, -⟩
    · exact h.carried visit (List.mem_of_getElem? hold) payload hpayload
    · rw [harriving] at hpayload
      cases hpayload
  faithful := h.faithful.begin references
  guarded := h.guarded.begin _
  taught := h.taught.begin _
  gather := h.gather.begin _

theorem Follows.carried_advance (h : Follows setting events start turns build owner)
    (hstep : Advances setting build index visit children stage next) {other : Visit}
    (hother : other ∈ next.visits) {payload : Payload}
    (hpayload : payload? other.stage = some payload) :
    Fetched (.turn setting ⟨build, index⟩ :: events) other.component.key payload.deps := by
  have hvisit := List.mem_of_getElem? hstep.found
  obtain ⟨i, hi⟩ := List.mem_iff_getElem?.1 hother
  rcases hstep.visit_cases hi with ⟨-, rfl⟩ | ⟨-, hkept⟩ | ⟨-, -, hchild⟩
  · rcases hstep.move.fetches hpayload with hcarried | ⟨hstage, warnings, hresponse⟩
    · exact (h.carried visit hvisit payload hcarried).mono (List.subset_cons_self _ _)
    · have hfetched : Fetched (.turn setting ⟨build, index⟩ :: events) visit.component.key
          payload.deps :=
        fetched_of_turn List.mem_cons_self ⟨hstep.found, hstage, warnings, hresponse⟩
      exact hfetched
  · exact (h.carried other (List.mem_of_getElem? hkept) payload hpayload).mono
      (List.subset_cons_self _ _)
  · rw [hchild.stage] at hpayload
    cases hpayload

theorem Follows.step (h : Follows setting events start turns build owner)
    (hnext : build.step? setting index = some next) :
    ∃ owner', Follows setting (.turn setting ⟨build, index⟩ :: events) start
      (⟨build, index⟩ :: turns) next owner' := by
  obtain ⟨visit, children, stage, hstep⟩ := exists_advances hnext
  obtain ⟨owner', hguarded', howner⟩ := h.guarded.advance hstep
  have hmore := h.mono (List.subset_cons_self (.turn setting ⟨build, index⟩) events)
  refine ⟨owner',
    { passed := ?_
      begun := hmore.begun
      cache := ?_
      carried := fun other hother payload hpayload => h.carried_advance hstep hother hpayload
      faithful := h.faithful.advance hstep
      guarded := hguarded'
      taught := h.taught.advance h.guarded hstep howner
      gather := h.gather.advance h.guarded hguarded' hstep howner }⟩
  · intro turn hturn
    rcases List.mem_cons.1 hturn with rfl | hold
    · exact List.mem_cons_self
    · exact hmore.passed turn hold
  · rcases hstep.move.cache_cases with hsame | hensured | ⟨payload, hpayload, hrecorded⟩
    · rw [hsame]
      exact hmore.cache
    · rw [hensured]
      exact hmore.cache.ensure _
    · rw [hrecorded]
      exact hmore.cache.recordSuccess
        (hmore.carried visit (List.mem_of_getElem? hstep.found) payload hpayload)

/-- What a build knows does not depend on what is on the disk now. -/
theorem Follows.withDisk (h : Follows setting events start turns build owner) (disk : Disk) :
    Follows setting events start turns { build with disk } owner where
  passed := h.passed
  begun := h.begun
  cache := h.cache
  carried := h.carried
  faithful := h.faithful
  guarded :=
    { unmet := h.guarded.unmet
      owned := fun key i howner => by
        obtain ⟨visit, hvisit, hkey, hguards⟩ := h.guarded.owned key i howner
        exact ⟨visit, hvisit, hkey, hguards.gates, hguards.knows, hguards.met⟩
      others := h.guarded.others
      ancestors := h.guarded.ancestors
      complete := h.guarded.complete }
  taught := ⟨h.taught.learned, h.taught.known, h.taught.looking, h.taught.unmet⟩
  gather i visit payload gathering hvisit hstage := by
    obtain ⟨order, hgathers⟩ := h.gather i visit payload gathering hvisit hstage
    exact ⟨order, hgathers.found, hgathers.seen, hgathers.opened, hgathers.met,
      hgathers.completes⟩

theorem History.follows (h : History directory events setting build) :
    ∃ start turns owner, Follows setting events start turns build owner := by
  induction h with
  | @start setting cache disk _ hcache _ =>
      refine ⟨cache, [], _, follows_start setting disk fun key entry hentry => ?_⟩
      simp [Cache.get?, hcache] at hentry
  | @fresh events setting setting' build _ _ ih =>
      obtain ⟨start, turns, owner, hfollows⟩ := ih
      exact ⟨build.cache, [], _, follows_start setting' build.disk hfollows.cache⟩
  | begin _ references ih =>
      obtain ⟨start, turns, owner, hfollows⟩ := ih
      exact ⟨start, turns, owner, hfollows.begin references⟩
  | step index _ hnext ih =>
      obtain ⟨start, turns, owner, hfollows⟩ := ih
      obtain ⟨owner', hfollows'⟩ := hfollows.step hnext
      exact ⟨start, _, owner', hfollows'⟩
  | deletion name _ _ ih =>
      obtain ⟨start, turns, owner, hfollows⟩ := ih
      exact ⟨start, turns, owner, (hfollows.mono (List.subset_cons_self _ _)).withDisk _⟩

theorem History.follows_turn (h : History directory events setting build)
    {setting' : BuildSetting} {turn : Turn} (hturn : .turn setting' turn ∈ events) :
    ∃ start turns owner, Follows setting' events start turns turn.before owner := by
  induction h with
  | start _ _ _ => cases hturn
  | fresh _ _ ih => exact ih hturn
  | begin _ _ ih => exact ih hturn
  | step index hhistory _ ih =>
      rcases List.mem_cons.1 hturn with heq | hold
      · cases heq
        obtain ⟨start, turns, owner, hfollows⟩ := hhistory.follows
        exact ⟨start, turns, owner, hfollows.mono (List.subset_cons_self _ _)⟩
      · obtain ⟨start, turns, owner, hfollows⟩ := ih hold
        exact ⟨start, turns, owner, hfollows.mono (List.subset_cons_self _ _)⟩
  | deletion _ _ _ ih =>
      rcases List.mem_cons.1 hturn with heq | hold
      · cases heq
      · obtain ⟨start, turns, owner, hfollows⟩ := ih hold
        exact ⟨start, turns, owner, hfollows.mono (List.subset_cons_self _ _)⟩

/-- What the build of a turn knew is what the cache says now, if that says anything. -/
theorem Follows.needs_eq (h : Follows setting events start turns build owner)
    (halike : ServedAlike events) (hdeps : build.knowledge.deps[key]? = some deps)
    (hcache : CacheFetched events cache) (hneeds : cache.needs key ≠ []) :
    cache.needs key = deps := by
  refine halike (key, _) (hcache.needs hneeds) (key, _) ?_ rfl
  cases h.taught.known key deps hdeps with
  | fetched hturn hfetch hkey hpayload =>
      subst hkey hpayload
      exact fetched_of_turn (h.passed _ hturn) hfetch
  | hit hturn hhit hkey hentry =>
      rcases h.begun key _ hentry with ⟨-, hfetched⟩ | hunknown
      · exact hfetched
      · cases hunknown

end Steps

/-! ### What an entry registers -/

theorem tag_of_transGen {naming : Naming} {needs : ComponentKey → List Dependency}
    {first second : ComponentKey}
    (h : Relation.TransGen (Needs naming.key (below needs)) first second) :
    second.tag = first.tag := by
  have hneeds : ∀ {first second}, Needs naming.key (below needs) first second →
      second.tag = first.tag := by
    rintro first _ ⟨reference, hreference, rfl⟩
    obtain ⟨dep, -, rfl⟩ := List.mem_map.1 hreference
    rfl
  induction h with
  | single hneed => exact hneeds hneed
  | tail _ hneed ih => rw [hneeds hneed, ih]

/-- A registration of all that can be reached has the keys that can be reached. -/
theorem registers_map_iff {workshop : Workshop} {order : List Reference} {tag : String}
    (htags : ∀ reference ∈ order, reference.tag = tag) (hkey : key.tag = tag) :
    Registers (order.map workshop.registration) key ↔ key ∈ order.map workshop.naming.key := by
  constructor
  · rintro ⟨registration, hregistration, hidentifier⟩
    obtain ⟨reference, hreference, rfl⟩ := List.mem_map.1 hregistration
    refine List.mem_map.2 ⟨reference, hreference, ?_⟩
    cases key
    cases hkey
    cases hidentifier
    exact congrArg (ComponentKey.mk · _) (htags reference hreference)
  · intro hmem
    obtain ⟨reference, hreference, rfl⟩ := List.mem_map.1 hmem
    exact ⟨_, List.mem_map_of_mem hreference, rfl⟩

/--
**What an entry misses.** The entry that was written last for a component registers all that is below
the component as the cache has it now, unless something that its build could not have is below it: then
that must need nothing which the entry does not register anyway.
-/
theorem registers_below_iff (hhistory : History directory events setting build)
    (halike : ServedAlike events) {reference : Reference} {payload : Payload}
    {closure : List Registration}
    (hlast : lastDeed? (setting.workshop.naming.moduleName reference) events =
      some (setting.workshop, .entry reference payload closure)) :
    ∃ writer turn,
      lastTurn? (setting.workshop.naming.moduleName reference) events = some (writer, turn) ∧
      ((∀ key, key ≠ setting.workshop.naming.key reference →
          IsBelow setting build.cache (setting.workshop.naming.key reference) key →
          Registers closure key) ↔
        ∀ key, IsBelow setting build.cache (setting.workshop.naming.key reference) key →
          turn.Lacks key → ∀ child ∈ below build.cache.needs key,
            setting.workshop.naming.key child = setting.workshop.naming.key reference ∨
              Registers closure (setting.workshop.naming.key child)) := by
  obtain ⟨writer, turn, hturn, hmem, hworkshop, hdeed⟩ := exists_lastTurn? hlast
  refine ⟨writer, turn, hturn, ?_⟩
  obtain ⟨visit, hvisit, hwrites⟩ := Option.bind_eq_some_iff.1 hdeed
  obtain ⟨_, _, _, hnow⟩ := hhistory.follows
  obtain ⟨start, turns, owner, hthen⟩ := hhistory.follows_turn hmem
  obtain ⟨order, rfl, horder, hdeps, hopened⟩ :=
    hthen.gather.exists_order hthen.faithful hthen.guarded hvisit hwrites
  rw [hworkshop] at horder hdeps hopened ⊢
  have hroot : turn.before.knownBelow (setting.workshop.naming.key reference) =
      payload.deps.map reference.child := by
    rw [knownBelow, hdeps]
    rfl
  rw [← hroot] at horder
  have htags : ∀ other ∈ order, other.tag = reference.tag := by
    intro other hother
    exact tag_of_transGen
      (((horder.mem_iff_reachable _).1 (List.mem_map_of_mem hother)).2)
  constructor
  · intro hall key hkey _ child hchild
    by_cases hself : setting.workshop.naming.key child = setting.workshop.naming.key reference
    · exact .inl hself
    · exact .inr (hall _ hself (hkey.tail ⟨child, hchild, rfl⟩))
  · intro hlacking
    -- What the entry registers, with its own component, is closed under what the cache says.
    have hclosed : ∀ key, (key = setting.workshop.naming.key reference ∨
          key ∈ order.map setting.workshop.naming.key) →
        ¬turn.Lacks key → ∀ child ∈ below build.cache.needs key,
          setting.workshop.naming.key child = setting.workshop.naming.key reference ∨
            setting.workshop.naming.key child ∈ order.map setting.workshop.naming.key := by
      intro key hkey hknown child hchild
      have hnode := (hthen.guarded.stage_of_opened (hopened key hkey)).1
      obtain ⟨known, hknown⟩ : ∃ known, turn.before.knowledge.deps[key]? = some known := by
        refine Option.ne_none_iff_exists'.1 fun hnone => hknown ⟨?_, hnone⟩
        exact Std.ExtTreeMap.mem_iff_isSome_getElem?.2 (by simp [hnode])
      have hneeds : build.cache.needs key = known := by
        refine hthen.needs_eq halike hknown hnow.cache fun hnone => ?_
        simp [below, hnone] at hchild
      have hbelow : child ∈ turn.before.knownBelow key := by
        rw [knownBelow, hknown]
        rwa [below, hneeds] at hchild
      rcases hkey with rfl | hmet
      · simpa using horder.closed.1 child hbelow
      · obtain ⟨met, hmem, rfl⟩ := List.mem_map.1 hmet
        simpa using horder.closed.2 met hmem child hbelow
    have hall : ∀ key, IsBelow setting build.cache (setting.workshop.naming.key reference) key →
        key = setting.workshop.naming.key reference ∨
          key ∈ order.map setting.workshop.naming.key := by
      intro key hkey
      induction hkey with
      | single hneed =>
          obtain ⟨child, hchild, rfl⟩ := hneed
          exact hclosed _ (.inl rfl) (fun hlacks => by simp [hlacks.2] at hdeps) child hchild
      | @tail middle _ hreach hneed ih =>
          obtain ⟨child, hchild, rfl⟩ := hneed
          by_cases hlacks : turn.Lacks middle
          · refine (hlacking middle hreach hlacks child hchild).imp_right fun hregisters => ?_
            refine (registers_map_iff htags ?_).1 hregisters
            exact tag_of_transGen (hreach.tail ⟨child, hchild, rfl⟩)
          · exact hclosed middle ih hlacks child hchild
    intro key hne hkey
    exact (registers_map_iff htags (tag_of_transGen hkey)).2 ((hall key hkey).resolve_left hne)

end Events

/-- What a visit fetches in its next step, and what that needs. -/
def fetches? (setting : BuildSetting) (visit : Visit) :
    Option (ComponentKey × List Dependency) :=
  if visit.stage = .requesting then
    match response setting visit with
    | .error _ => none
    | .ok (payload, _) => some (visit.component.key, payload.deps)
  else none

/-- What a run fetches can be told from the visits that take its strides. -/
theorem IsReady.filterMap_fetched {setting : BuildSetting} {held : List Reference}
    {build last : Build} {disk : Disk} {indices : List Nat} (h : IsReady setting held disk)
    (hfaithful : AllFaithful setting build)
    (hlast : strides? setting held build indices = some last) :
    (sweepEvents setting (build.withDisk disk) indices).filterMap fetched? =
      (strideVisits setting build indices).filterMap (fetches? setting) := by
  refine h.filterMap_sweepEvents ?_ ?_ hfaithful hlast
  · intro turn visit hvisit _
    rw [fetched?, hvisit]
    rfl
  · intro visit _ hstage
    exact if_neg hstage

/-! ### A registry that a recovery leaves behind -/

/-- What the component `app` is served as. -/
def appPayload : Payload :=
  { runtime := "function () \x7b\x7d", deps := [⟨"menu", "1"⟩] }

/-- The component `app`, as a source refers to it. -/
def app : Reference :=
  ⟨"ui", "app", "1"⟩

/-- The setting of `menuSetting` while `app` is all that can be had. -/
def partialSetting : BuildSetting :=
  { menuSetting with
    endpoint := fun request =>
      if request.reference.space = "app" then some (.ok (appPayload, []))
      else some (.error (.status 500)) }

/-- The setting when `menu` can be had, too. It needs the component `icon`. -/
def recoveredSetting : BuildSetting :=
  { menuSetting with
    endpoint := fun request =>
      if request.reference.space = "app" then some (.ok (appPayload, []))
      else if request.reference.space = "menu" then
        some (.ok ({ appPayload with deps := [⟨"icon", "1"⟩] }, []))
      else some (.ok ({ appPayload with deps := [] }, [])) }

/-- The first build of `app`, before a turn. -/
def partialStart : Build :=
  (Build.start .inMemory .empty).begin ([app].map (named partialSetting))

/-- The turns of the first build, in which `menu` fails. -/
def partialTurns : List Nat :=
  [0, 0, 0, 1, 1, 1, 1, 0, 0, 0]

/-- The next build of `app`, before a turn. -/
def recoveredStart : Build :=
  (Build.start (partialStart.sweep partialSetting partialTurns).cache
    (partialStart.sweep partialSetting partialTurns).disk).begin
      ([app].map (named recoveredSetting))

/-- The turns of the next build, which finds `app` and fetches what is below it. -/
def recoveredTurns : List Nat :=
  [0, 0, 1, 1, 1, 1, 2, 2, 2, 2, 2, 1, 0]

/-- The next build when it is over. -/
def recoveredBuild : Build :=
  recoveredStart.sweep recoveredSetting recoveredTurns

/-- The next build before a turn, but for the disk, if the first one came to that. -/
def recoveredOpening (first : Build) : Build :=
  (Build.start first.cache .empty).begin ([app].map (named recoveredSetting))

/-- What happened in both builds, the last event first. -/
def recoveredEvents : List Event :=
  sweepEvents recoveredSetting recoveredStart recoveredTurns ++
    sweepEvents partialSetting partialStart partialTurns

theorem buildsIn_recoveredSetting : BuildsIn ⟨"/w"⟩ recoveredSetting :=
  ⟨.jsx, "r", "c", rfl⟩

theorem history_partialStart : History ⟨"/w"⟩ [] partialSetting (partialStart.withDisk .empty) :=
  (history_start ⟨.jsx, "r", "c", rfl⟩).begin [app]

theorem history_recoveredBuild :
    History ⟨"/w"⟩ recoveredEvents recoveredSetting recoveredBuild := by
  have hfirst := history_partialStart.sweep partialTurns
  rw [List.append_nil] at hfirst
  exact ((hfirst.fresh buildsIn_recoveredSetting).begin [app]).sweep recoveredTurns

/-- What the visits of a run fetch, the last one first. -/
def stridesFetch (setting : BuildSetting) (build : Build) (indices : List Nat) :
    List (ComponentKey × List Dependency) :=
  (strideVisits setting build indices).filterMap (fetches? setting)

set_option maxRecDepth 100000 in
theorem recoveredBuild_strides :
    (strides? partialSetting [] partialStart partialTurns).any (fun first =>
      ((strideVisits partialSetting partialStart partialTurns).filterMap
          (writes? partialSetting (recoveredSetting.workshop.naming.moduleName app))).head? =
        some (recoveredSetting.workshop, .entry app appPayload
          [recoveredSetting.workshop.registration menu]) ∧
      ((strideVisits recoveredSetting (recoveredOpening first) recoveredTurns).filterMap
        (writes? recoveredSetting (recoveredSetting.workshop.naming.moduleName app))).head? = none ∧
      (let fetched := stridesFetch recoveredSetting (recoveredOpening first) recoveredTurns ++
          stridesFetch partialSetting partialStart partialTurns
        ∀ first ∈ fetched, ∀ second ∈ fetched, first.1 = second.1 → first.2 = second.2) ∧
      (strides? recoveredSetting [app] (recoveredOpening first) recoveredTurns).any (fun last =>
        (last.isFinished = true ∧
          (last.visits[0]?.map fun visit => (visit.component.reference, visit.isChild)) =
            some (app, false) ∧
          last.reports = [{ Report.zero with fetched := 2, cacheHits := 1 }]) ∧
        last.cache.needs (recoveredSetting.workshop.naming.key app) = [⟨"menu", "1"⟩] ∧
        last.cache.needs (recoveredSetting.workshop.naming.key menu) = [⟨"icon", "1"⟩]) = true) =
      true := by
  decide +kernel

theorem identifier_icon_ne :
    (recoveredSetting.workshop.naming.identity ⟨"ui", "icon", "1"⟩).identifier ≠
        (recoveredSetting.workshop.naming.identity app).identifier ∧
      (recoveredSetting.workshop.naming.identity ⟨"ui", "icon", "1"⟩).identifier ≠
        (recoveredSetting.workshop.naming.identity menu).identifier := by
  decide +kernel

theorem recoveredBuild_computed :
    (recoveredBuild.isFinished = true ∧
      (recoveredBuild.visits[0]?.map fun visit => (visit.component.reference, visit.isChild)) =
        some (app, false) ∧
      recoveredBuild.reports = [{ Report.zero with fetched := 2, cacheHits := 1 }]) ∧
    (ServedAlike recoveredEvents ∧
      lastDeed? (recoveredSetting.workshop.naming.moduleName app) recoveredEvents =
        some (recoveredSetting.workshop, .entry app appPayload
          [recoveredSetting.workshop.registration menu])) ∧
    recoveredBuild.cache.needs (recoveredSetting.workshop.naming.key app) = [⟨"menu", "1"⟩] ∧
    recoveredBuild.cache.needs (recoveredSetting.workshop.naming.key menu) = [⟨"icon", "1"⟩] := by
  obtain ⟨first, hfirst, hchecked⟩ := (Option.any_eq_true _ _).1 recoveredBuild_strides
  obtain ⟨hwritten, hkept, halike, hnext⟩ := of_decide_eq_true hchecked
  obtain ⟨last, hlast, hchecked'⟩ := (Option.any_eq_true _ _).1 hnext
  obtain ⟨hover, hneeds⟩ := of_decide_eq_true hchecked'
  have hempty : IsReady partialSetting [] .empty := isReady_menuSetting.congr rfl
  have hfaithful : AllFaithful partialSetting partialStart := history_partialStart.allFaithful
  have hfetched := hempty.filterMap_fetched hfaithful hfirst
  obtain ⟨disk, hsweep, hready, hhistory, hwrites⟩ :=
    history_partialStart.exists_last hempty hfirst
  have hsame : partialStart.withDisk .empty = partialStart := rfl
  rw [hsame] at hfetched hsweep hhistory hwrites
  rw [List.append_nil] at hhistory hwrites
  -- The first build has written the entry that the next one finds.
  have hentry := hwrites (recoveredSetting.workshop.naming.moduleName app)
  rw [hwritten, Option.some_or] at hentry
  have hheld : IsReady recoveredSetting [app] disk :=
    (IsReady.hold hready hhistory hentry).congr rfl
  have hbegun : History ⟨"/w"⟩ _ recoveredSetting ((recoveredOpening first).withDisk disk) :=
    (hhistory.fresh buildsIn_recoveredSetting).begin [app]
  have hfaithful' : AllFaithful recoveredSetting (recoveredOpening first) := hbegun.allFaithful
  have hfetched' := hheld.filterMap_fetched hfaithful' hlast
  obtain ⟨disk', hsweep', -, -, hwrites'⟩ := hbegun.exists_last hheld hlast
  have hstart : recoveredStart = (recoveredOpening first).withDisk disk := by
    rw [recoveredStart, hsweep]
    rfl
  rw [recoveredBuild, recoveredEvents, hstart, hsweep']
  refine ⟨hover, ⟨?_, ?_⟩, hneeds⟩
  · rw [ServedAlike, List.filterMap_append, hfetched', hfetched]
    exact halike
  · rw [hwrites', hkept, Option.none_or]
    exact hentry

theorem registers_below_iff_of_recovery :
    History ⟨"/w"⟩ recoveredEvents recoveredSetting recoveredBuild ∧
      ServedAlike recoveredEvents ∧
      lastDeed? (recoveredSetting.workshop.naming.moduleName app) recoveredEvents =
        some (recoveredSetting.workshop, .entry app appPayload
          [recoveredSetting.workshop.registration menu]) ∧
      ∃ writer turn,
        lastTurn? (recoveredSetting.workshop.naming.moduleName app) recoveredEvents =
          some (writer, turn) ∧
        ((∀ key, key ≠ recoveredSetting.workshop.naming.key app →
            IsBelow recoveredSetting recoveredBuild.cache
              (recoveredSetting.workshop.naming.key app) key →
            Registers [recoveredSetting.workshop.registration menu] key) ↔
          ∀ key, IsBelow recoveredSetting recoveredBuild.cache
              (recoveredSetting.workshop.naming.key app) key →
            turn.Lacks key → ∀ child ∈ below recoveredBuild.cache.needs key,
              recoveredSetting.workshop.naming.key child =
                  recoveredSetting.workshop.naming.key app ∨
                Registers [recoveredSetting.workshop.registration menu]
                  (recoveredSetting.workshop.naming.key child)) := by
  obtain ⟨-, ⟨halike, hlast⟩, -⟩ := recoveredBuild_computed
  exact ⟨history_recoveredBuild, halike, hlast,
    registers_below_iff history_recoveredBuild halike hlast⟩

theorem recovery_leaves_registry_incomplete :
    (∃ events, History ⟨"/w"⟩ events recoveredSetting recoveredBuild ∧ ServedAlike events) ∧
      recoveredBuild.isFinished = true ∧
      (recoveredBuild.visits[0]?.map fun visit => (visit.component.reference, visit.isChild)) =
        some (app, false) ∧
      recoveredBuild.reports = [{ Report.zero with fetched := 2, cacheHits := 1 }] ∧
      recoveredBuild.disk.read (recoveredSetting.workshop.naming.identity app).path =
        .ok ((Deed.entry app appPayload
          [recoveredSetting.workshop.registration menu]).content recoveredSetting.workshop) ∧
      ∃ key, key ≠ recoveredSetting.workshop.naming.key app ∧
        IsBelow recoveredSetting recoveredBuild.cache
          (recoveredSetting.workshop.naming.key app) key ∧
        ¬Registers [recoveredSetting.workshop.registration menu] key := by
  obtain ⟨⟨hfinished, hvisit, hreports⟩, ⟨halike, hlast⟩, hneeds, hmenu⟩ :=
    recoveredBuild_computed
  obtain ⟨hne, hother⟩ := identifier_icon_ne
  have hhistory := history_recoveredBuild
  refine ⟨⟨_, hhistory, halike⟩, hfinished, hvisit, hreports, ?_,
    recoveredSetting.workshop.naming.key ⟨"ui", "icon", "1"⟩, ?_, ?_, ?_⟩
  · exact hhistory.read_of_lastDeed? hlast
  · exact fun heq => hne (congrArg ComponentKey.identifier heq)
  · refine .tail (.single ⟨menu, ?_, rfl⟩) ⟨⟨"ui", "icon", "1"⟩, ?_, rfl⟩
    · rw [below, hneeds]
      exact List.mem_singleton_self _
    · rw [below, hmenu]
      exact List.mem_singleton_self _
  · rintro ⟨registration, hregistration, hidentifier⟩
    obtain rfl := List.mem_singleton.1 hregistration
    have hsame : (recoveredSetting.workshop.naming.identity menu).identifier =
        (recoveredSetting.workshop.naming.identity ⟨"ui", "icon", "1"⟩).identifier := hidentifier
    exact hother hsame.symm

end Build

end ComponentTags
