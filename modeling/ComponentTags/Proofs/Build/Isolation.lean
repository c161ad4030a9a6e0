import ComponentTags.Proofs.Build.Remains
import ComponentTags.Proofs.Build.Schedules

/-!
Isolation. What the endpoint answers for some components, a failure for one, has no part in what becomes
of another component: its cache entry and its files are the same with any other answers, unless it is an
entry that is served and has one of those components below it.
-/

namespace ComponentTags.Build

variable {call : Call} {directory : Path} {endpoint : Endpoint} {changed : Set Reference}
  {build build' : Build} {reference other : Reference} {name : String}

/-- The same call to another endpoint. -/
def Call.withEndpoint (call : Call) (endpoint : Endpoint) : Call :=
  { call with setting := { call.setting with endpoint } }

/-- An endpoint answers as another one does, but for some components. -/
def AgreesBut (changed : Set Reference) (endpoint other : Endpoint) : Prop :=
  ∀ request : FetchRequest, request.reference ∉ changed → other request = endpoint request

/-- A component is asked for and served, and one of some components is below it. -/
def Call.IsEntryAbove (call : Call) (changed : Set Reference) (reference : Reference) : Prop :=
  reference ∈ call.references ∧ (∃ payload, call.fate reference = .served payload) ∧
    ∃ other ∈ changed, Relation.TransGen call.Needs reference other

theorem Call.Meets.reaches (h : call.Meets reference)
    (hreach : Relation.TransGen call.Needs reference other) : call.Meets other := by
  obtain ⟨root, hroot, hreference⟩ := h
  exact ⟨root, hroot, hreference.trans hreach.to_reflTransGen⟩

/-! ### What does not depend on the changed answers -/

section Answers

variable (hsame : AgreesBut changed call.setting.endpoint endpoint)

include hsame

theorem fate_withEndpoint (hother : reference ∉ changed) :
    (call.withEndpoint endpoint).fate reference = call.fate reference := by
  have hanswer : answer? (call.withEndpoint endpoint).setting reference =
      answer? call.setting reference := by
    rw [answer?, answer?]
    dsimp only [Call.withEndpoint]
    cases call.setting.registry.find? reference.tag with
    | none => rfl
    | some rule =>
        dsimp only
        rw [hsame _ hother]
  rw [Call.fate, Call.fate, hanswer]
  rfl

theorem deps_withEndpoint (hother : reference ∉ changed) :
    (call.withEndpoint endpoint).deps reference = call.deps reference := by
  rw [Call.deps, Call.deps, fate_withEndpoint hsame hother]

theorem needs_withEndpoint_iff (hother : reference ∉ changed) :
    (call.withEndpoint endpoint).Needs reference other ↔ call.Needs reference other := by
  rw [Call.Needs, Call.Needs, deps_withEndpoint hsame hother]

theorem reaches_withEndpoint (hother : reference ∉ changed)
    (hclear : ∀ other, Relation.TransGen call.Needs reference other → other ∉ changed)
    (hreach : Relation.TransGen call.Needs reference other) :
    Relation.TransGen (call.withEndpoint endpoint).Needs reference other := by
  induction hreach with
  | single hneeds => exact .single ((needs_withEndpoint_iff hsame hother).2 hneeds)
  | tail hreach hneeds ih =>
      exact ih.tail ((needs_withEndpoint_iff hsame (hclear _ hreach)).2 hneeds)

section Both

variable (horderly : call.IsOrderly directory)
  (horderly' : (call.withEndpoint endpoint).IsOrderly directory) (hmeets : call.Meets reference)
  (hmeets' : (call.withEndpoint endpoint).Meets reference) (hother : reference ∉ changed)

include horderly horderly' hmeets hmeets' hother

/-- All below a component is met in one order if nothing there has changed. -/
theorem closure_withEndpoint
    (hclear : ∀ other, Relation.TransGen call.Needs reference other → other ∉ changed) :
    (call.withEndpoint endpoint).closure reference = call.closure reference := by
  have hneeds : ∀ node, Relation.TransGen call.Needs reference node →
      call.needsAt (call.naming.key node) = (call.deps node).map node.child :=
    fun node hnode => horderly.needsAt_key (hmeets.reaches hnode)
  have hneeds' : ∀ node, Relation.TransGen call.Needs reference node →
      (call.withEndpoint endpoint).needsAt (call.naming.key node) =
        (call.deps node).map node.child := by
    intro node hnode
    rw [← deps_withEndpoint hsame (hclear node hnode)]
    exact horderly'.needsAt_key (hmeets'.reaches (reaches_withEndpoint hsame hother hclear hnode))
  refine Call.closure_congr fun order => ?_
  rw [deps_withEndpoint hsame hother]
  refine DepthFirst.congr_of_forall (Relation.TransGen call.Needs reference) ?_ ?_ ?_
  · intro node hnode
    obtain ⟨dep, hdep, rfl⟩ := List.mem_map.1 hnode
    exact .single ⟨dep, hdep, rfl⟩
  · intro node hnode below hbelow
    rw [hneeds node hnode] at hbelow
    obtain ⟨dep, hdep, rfl⟩ := List.mem_map.1 hbelow
    exact hnode.tail ⟨dep, hdep, rfl⟩
  · intro node hnode
    rw [hneeds node hnode]
    exact hneeds' node hnode

/-- The module that is written for a component does not depend on other components, unless it is that
of an entry. -/
theorem deed?_withEndpoint (hclear : ¬call.IsEntryAbove changed reference) :
    (call.withEndpoint endpoint).deed? reference = call.deed? reference := by
  rw [Call.deed?, Call.deed?, fate_withEndpoint hsame hother]
  cases hfate : call.fate reference with
  | found deps => rfl
  | lost => rfl
  | served payload =>
      dsimp only
      by_cases hasked : reference ∈ call.references
      · have hbelow : ∀ other, Relation.TransGen call.Needs reference other → other ∉ changed :=
          fun other hreach hchanged =>
            hclear ⟨hasked, ⟨payload, hfate⟩, other, hchanged, hreach⟩
        rw [closure_withEndpoint hsame horderly horderly' hmeets hmeets' hother hbelow]
        rfl
      · have hasked' : reference ∉ (call.withEndpoint endpoint).references := hasked
        rw [if_neg hasked, if_neg hasked']
        rfl

theorem remains_withEndpoint (hclear : ¬call.IsEntryAbove changed reference) :
    (call.withEndpoint endpoint).remains reference name = call.remains reference name := by
  rw [Call.remains, Call.remains, Call.saves, Call.saves,
    deed?_withEndpoint hsame horderly horderly' hmeets hmeets' hother hclear]
  rfl

end Both

end Answers

/-! ### Two builds -/

/--
**Failures stay isolated.** Two fresh builds are asked for the same from the same cache and disk, with
endpoints that differ in their answers for some components, and have no write errors, whatever the order
of turns is. Any other component that both visit has the same cache entry after both. Its files are the
same, too, unless it is an entry that is served and has one of the changed components below it.
-/
theorem failures_stay_isolated (hsame : AgreesBut changed call.setting.endpoint endpoint)
    (horderly : call.IsOrderly directory)
    (horderly' : (call.withEndpoint endpoint).IsOrderly directory)
    (hsteps : Relation.ReflTransGen (StepsTo call.setting) call.opening build)
    (hover : build.isFinished = true)
    (hsteps' : Relation.ReflTransGen (StepsTo (call.withEndpoint endpoint).setting)
      (call.withEndpoint endpoint).opening build')
    (hover' : build'.isFinished = true)
    (hwrites : build.HasNoWriteErrors) (hwrites' : build'.HasNoWriteErrors)
    (hother : reference ∉ changed) (hvisited : build.IsVisited reference)
    (hvisited' : build'.IsVisited reference) :
    build.cache.get? (call.naming.key reference) = build'.cache.get? (call.naming.key reference) ∧
      (¬call.IsEntryAbove changed reference →
        ¬(call.withEndpoint endpoint).IsEntryAbove changed reference →
        ∀ name ∈ call.naming.ownNames reference,
          build.disk.read (call.naming.directory / name) =
            build'.disk.read (call.naming.directory / name)) := by
  have hmeets := meets_of_isVisited horderly hsteps hvisited
  have hmeets' := meets_of_isVisited horderly' hsteps' hvisited'
  obtain ⟨settled, lost, h⟩ := exists_outcome horderly hsteps hover
  obtain ⟨settled', lost', h'⟩ := exists_outcome horderly' hsteps' hover'
  have hmanages := h.manages hwrites ((h.mem_settled reference).2 hmeets)
  have hmanages' := h'.manages hwrites' ((h'.mem_settled reference).2 hmeets')
  constructor
  · have hentry : (call.withEndpoint endpoint).entry reference = call.entry reference := by
      rw [Call.entry, Call.entry, fate_withEndpoint hsame hother, hmanages, hmanages']
      rfl
    rw [h.recorded reference hmeets, ← hentry]
    exact (h'.recorded reference hmeets').symm
  · intro hclear _ name hname
    have hplain := horderly.isProper.isPlainName_of_mem_ownNames hname
    refine Disk.read_congr horderly.endsPlain hplain (h.isDirectory horderly hwrites hmeets)
      (h'.isDirectory horderly' hwrites' hmeets') ?_
    rw [h.standing_eq horderly hwrites hmeets hname,
      ← remains_withEndpoint hsame horderly horderly' hmeets hmeets' hother hclear]
    exact (h'.standing_eq horderly' hwrites' hmeets' hname).symm

/-! ### A component that fails -/

/-- The same call, with a component that the endpoint does not serve. -/
def Call.without (call : Call) (reference : Reference) : Call :=
  call.withEndpoint fun request =>
    if request.reference = reference then some (.error (.status 500))
    else call.setting.endpoint request

/-- Two builds without write errors, in one of which a component fails, leave different cache entries
for another component that both visit. -/
structure Spills (call : Call) (failing reference : Reference) (build build' : Build) : Prop where
  steps : Relation.ReflTransGen (StepsTo call.setting) call.opening build
  steps' : Relation.ReflTransGen (StepsTo (call.without failing).setting)
    (call.without failing).opening build'
  finished : build.isFinished = true ∧ build'.isFinished = true
  writes : build.HasNoWriteErrors ∧ build'.HasNoWriteErrors
  other : reference ≠ failing
  visited : build.IsVisited reference ∧ build'.IsVisited reference
  entries : build.cache.get? (call.naming.key reference) ≠
    build'.cache.get? (call.naming.key reference)

theorem agreesBut_without (call : Call) (failing : Reference) :
    AgreesBut {failing} call.setting.endpoint (call.without failing).setting.endpoint :=
  fun _ hother => if_neg hother

/-- A component that fails needs nothing that it did not need. -/
theorem needs_of_without {failing : Reference} (h : (call.without failing).Needs reference other) :
    call.Needs reference other := by
  by_cases heq : reference = failing
  · subst heq
    have hanswer : answer? (call.without reference).setting reference = none := by
      rw [answer?]
      dsimp only [Call.without, Call.withEndpoint]
      cases call.setting.registry.find? reference.tag with
      | none => rfl
      | some rule =>
          dsimp only
          rw [if_pos rfl]
    have hknown : (call.without reference).known? reference = call.known? reference := rfl
    obtain ⟨dep, hdep, hother⟩ := h
    rw [Call.deps, Call.fate, hknown, hanswer] at hdep
    cases hfound : call.known? reference with
    | none =>
        rw [hfound] at hdep
        cases hdep
    | some deps =>
        rw [hfound] at hdep
        refine ⟨dep, ?_, hother⟩
        rw [Call.deps, Call.fate_of_known hfound]
        exact hdep
  · exact (needs_withEndpoint_iff (agreesBut_without call failing) heq).1 h

theorem reaches_of_without {failing : Reference}
    (h : Relation.TransGen (call.without failing).Needs reference other) :
    Relation.TransGen call.Needs reference other :=
  Relation.TransGen.mono (fun _ _ => needs_of_without) _ _ h

/-- An orderly call stays orderly when a component fails. -/
theorem Call.IsOrderly.without (h : call.IsOrderly directory) (failing : Reference) :
    (call.without failing).IsOrderly directory := by
  have hmeets : ∀ reference, (call.without failing).Meets reference → call.Meets reference := by
    rintro reference ⟨root, hroot, hreach⟩
    exact ⟨root, hroot, Relation.ReflTransGen.mono (fun _ _ => needs_of_without) _ _ hreach⟩
  exact
    { buildsIn := h.buildsIn
      isTidy := h.isTidy
      distinct := fun first second hfirst hsecond =>
        h.distinct first second (hmeets first hfirst) (hmeets second hsecond)
      apart := fun root hroot other hother hreach =>
        h.apart root hroot other hother (reaches_of_without hreach) }

/-- The component `app` is asked for, which is there and needs `list`, and `list` needs `item`. -/
def shopCall : Call where
  setting :=
    { menuSetting with
      endpoint := fun request =>
        let deps := if request.reference.space = "list" then [⟨"item", "1"⟩] else []
        some (.ok ({ runtime := "function () \x7b\x7d", deps }, [])) }
  cache :=
    Cache.inMemory.recordSuccess (menuSetting.workshop.naming.key ⟨"ui", "app", "1"⟩)
      [⟨"list", "1"⟩]
  disk := entryDisk
  references := [⟨"ui", "app", "1"⟩]

def shopList : List Reference :=
  [⟨"ui", "app", "1"⟩, ⟨"ui", "list", "1"⟩, ⟨"ui", "item", "1"⟩]

def shopBuild : Build :=
  shopCall.after [0, 0, 1, 1, 1, 1, 2, 2, 2, 2, 2, 1, 0]

/-- The build of the shop when `item` fails. -/
def failingBuild : Build :=
  (shopCall.without ⟨"ui", "item", "1"⟩).after [0, 0, 1, 1, 1, 1, 2, 2, 2, 2, 1, 0]

set_option maxRecDepth 100000 in
theorem shopCall_computed :
    (shopCall.ClosedBy shopList ∧
      (∀ first ∈ shopList, ∀ second ∈ shopList,
        (shopCall.naming.identity first).identifier =
          (shopCall.naming.identity second).identifier → first = second) ∧
      ∀ reference ∈ shopList, ∀ dep ∈ shopCall.deps reference,
        reference.child dep ∉ shopCall.references) ∧
    (menuSetting.workshop.naming.identity ⟨"ui", "app", "1"⟩).identifier.utf8ByteSize ≤
      Naming.maxIdentifierSize ∧
    (strides? shopCall.setting [⟨"ui", "app", "1"⟩] shopCall.opening
      [0, 0, 1, 1, 1, 1, 2, 2, 2, 2, 2, 1, 0]).any (fun last => last.isFinished = true ∧
        last.HasNoWriteErrors ∧ last.IsVisited ⟨"ui", "list", "1"⟩) = true ∧
    (strides? (shopCall.without ⟨"ui", "item", "1"⟩).setting [⟨"ui", "app", "1"⟩]
      (shopCall.without ⟨"ui", "item", "1"⟩).opening [0, 0, 1, 1, 1, 1, 2, 2, 2, 2, 1, 0]).any
        (fun last => last.isFinished = true ∧ last.HasNoWriteErrors ∧
          last.IsVisited ⟨"ui", "list", "1"⟩) = true := by
  decide +kernel

theorem shopBuilds_over :
    (shopBuild.isFinished = true ∧ shopBuild.HasNoWriteErrors ∧
        shopBuild.IsVisited ⟨"ui", "list", "1"⟩) ∧
      failingBuild.isFinished = true ∧ failingBuild.HasNoWriteErrors ∧
        failingBuild.IsVisited ⟨"ui", "list", "1"⟩ := by
  obtain ⟨-, hshort, hstrides, hstrides'⟩ := shopCall_computed
  obtain ⟨-, -, -, hnew, -⟩ := sharingCall_computed
  have hready : IsReady shopCall.setting [⟨"ui", "app", "1"⟩] shopCall.disk :=
    (isReady_put_folderDisk hshort hnew).congr rfl
  obtain ⟨last, disk, hlast, hafter⟩ := shopCall.exists_after hready hstrides
  obtain ⟨last', disk', hlast', hafter'⟩ :=
    (shopCall.without ⟨"ui", "item", "1"⟩).exists_after (hready.congr rfl) hstrides'
  rw [shopBuild, failingBuild, hafter, hafter']
  exact ⟨of_decide_eq_true hlast, of_decide_eq_true hlast'⟩

theorem isOrderly_shopCall : shopCall.IsOrderly ⟨"/w"⟩ := by
  obtain ⟨⟨hclosed, hdistinct, hapart⟩, -⟩ := shopCall_computed
  exact hclosed.isOrderly ⟨.jsx, "r", "c", rfl⟩ ⟨isTree_entryDisk, .inl (by decide)⟩ hdistinct hapart

/-- When `item` fails, what is written for `list` is the same, though it imports `item`. -/
theorem failures_stay_isolated_of_shop :
    shopCall.IsOrderly ⟨"/w"⟩ ∧ (shopCall.without ⟨"ui", "item", "1"⟩).IsOrderly ⟨"/w"⟩ ∧
      shopBuild.isFinished = true ∧ failingBuild.isFinished = true ∧
      shopBuild.HasNoWriteErrors ∧ failingBuild.HasNoWriteErrors ∧
      shopBuild.IsVisited ⟨"ui", "list", "1"⟩ ∧ failingBuild.IsVisited ⟨"ui", "list", "1"⟩ ∧
      shopBuild.cache.get? (shopCall.naming.key ⟨"ui", "list", "1"⟩) =
        failingBuild.cache.get? (shopCall.naming.key ⟨"ui", "list", "1"⟩) ∧
      ∀ name ∈ shopCall.naming.ownNames ⟨"ui", "list", "1"⟩,
        shopBuild.disk.read (shopCall.naming.directory / name) =
          failingBuild.disk.read (shopCall.naming.directory / name) := by
  obtain ⟨⟨hover, hwrites, hvisited⟩, hover', hwrites', hvisited'⟩ := shopBuilds_over
  have horderly' := isOrderly_shopCall.without ⟨"ui", "item", "1"⟩
  have hasked : (⟨"ui", "list", "1"⟩ : Reference) ∉ shopCall.references := by decide
  have hother : (⟨"ui", "list", "1"⟩ : Reference) ∉
      ({⟨"ui", "item", "1"⟩} : Set Reference) := by simp
  obtain ⟨hcache, hfiles⟩ := failures_stay_isolated (agreesBut_without shopCall ⟨"ui", "item", "1"⟩)
    isOrderly_shopCall horderly' (shopCall.steps_after _) hover
    ((shopCall.without ⟨"ui", "item", "1"⟩).steps_after _) hover' hwrites hwrites' hother hvisited
    hvisited'
  exact ⟨isOrderly_shopCall, horderly', hover, hover', hwrites, hwrites', hvisited, hvisited',
    hcache, hfiles (fun h => hasked h.1) fun h => hasked h.1⟩

/-! ### Calls that are not orderly -/

/-- The entries `left` and `right` need two components whose digests begin alike, so they have one
identifier. The endpoint serves `left` and what it needs; `right` is there. -/
def twinCall : Call where
  setting :=
    { collidingCall.setting with
      endpoint := fun request =>
        if request.reference.space = "left" then
          some (.ok ({ runtime := "function () \x7b\x7d", deps := [⟨"lib", "1+..+.-+.0"⟩] }, []))
        else collidingCall.setting.endpoint request }
  cache :=
    Cache.inMemory.recordSuccess (menuSetting.workshop.naming.key ⟨"Widget", "right", "1"⟩)
      [⟨"lib", "1.+++.++-+.0"⟩]
  disk :=
    folderDisk.put [menuSetting.workshop.naming.moduleName ⟨"Widget", "right", "1"⟩, "com", "w"]
      (.file [])
  references := [⟨"Widget", "left", "1"⟩, ⟨"Widget", "right", "1"⟩]

def twinBuild : Build :=
  twinCall.after [0, 0, 0, 1, 1, 2, 2, 2, 2, 2, 0, 0, 0, 3, 3, 1]

/-- The build when `left` fails. -/
def singleBuild : Build :=
  (twinCall.without ⟨"Widget", "left", "1"⟩).after [0, 0, 0, 0, 1, 1, 2, 2, 2, 2, 1]

/-- A module of `menu` that is not reached until `/w/away` is made. It needs `item`, as the cache says,
but nothing, as the endpoint says. -/
def hiddenCall : Call :=
  { detourCall with
    cache := (detourCall.cache.recordSuccess (detourCall.naming.key ⟨"ui", "item", "1"⟩)
        []).recordSuccess (detourCall.naming.key ⟨"ui", "menu", "1"⟩) [⟨"item", "1"⟩]
    disk := detourCall.disk.put [detourCall.naming.moduleName ⟨"ui", "item", "1"⟩, "com", "w"]
      (.file []) }

def earlyBuild : Build :=
  hiddenCall.after [0, 0, 0, 0, 0, 0, 1, 1, 1, 1, 1]

/-- A build in which `page` fails, and `menu` is reached when that is written. -/
def lateBuild : Build :=
  (hiddenCall.without ⟨"ui", "page", "1"⟩).after [1, 1, 1, 1, 0, 0, 2, 2, 2, 0]

/-- All that comes up. -/
def hiddenList : List Reference :=
  ⟨"ui", "item", "1"⟩ :: detourCall.references

set_option maxRecDepth 100000 in
theorem twinCall_computed :
    twinCall.ClosedBy (twinCall.references ++ collidingCall.references) ∧
      (∀ reference ∈ twinCall.references ++ collidingCall.references,
        ∀ dep ∈ twinCall.deps reference, reference.child dep ∉ twinCall.references) ∧
      folderDisk.entry? [menuSetting.workshop.naming.moduleName ⟨"Widget", "right", "1"⟩, "com", "w"] =
        none ∧
      (menuSetting.workshop.naming.identity ⟨"Widget", "right", "1"⟩).identifier.utf8ByteSize ≤
        Naming.maxIdentifierSize ∧
      (strides? twinCall.setting [⟨"Widget", "right", "1"⟩] twinCall.opening
        [0, 0, 0, 1, 1, 2, 2, 2, 2, 2, 0, 0, 0, 3, 3, 1]).any (fun last =>
          last.isFinished = true ∧ last.HasNoWriteErrors ∧
            last.IsVisited ⟨"Widget", "lib", "1.+++.++-+.0"⟩ ∧
            (last.cache.get? (twinCall.naming.key ⟨"Widget", "lib", "1.+++.++-+.0"⟩)).map
              (·.success) = some true) = true ∧
      (strides? (twinCall.without ⟨"Widget", "left", "1"⟩).setting [⟨"Widget", "right", "1"⟩]
        (twinCall.without ⟨"Widget", "left", "1"⟩).opening
          [0, 0, 0, 0, 1, 1, 2, 2, 2, 2, 1]).any (fun last =>
            last.isFinished = true ∧ last.HasNoWriteErrors ∧
              last.IsVisited ⟨"Widget", "lib", "1.+++.++-+.0"⟩ ∧
              (last.cache.get? (twinCall.naming.key ⟨"Widget", "lib", "1.+++.++-+.0"⟩)).map
                (·.success) = some false) = true := by
  decide +kernel

theorem twinBuild_computed :
    (twinBuild.isFinished = true ∧ singleBuild.isFinished = true) ∧
      (twinBuild.HasNoWriteErrors ∧ singleBuild.HasNoWriteErrors) ∧
      (twinBuild.IsVisited ⟨"Widget", "lib", "1.+++.++-+.0"⟩ ∧
        singleBuild.IsVisited ⟨"Widget", "lib", "1.+++.++-+.0"⟩) ∧
      twinBuild.cache.get? (twinCall.naming.key ⟨"Widget", "lib", "1.+++.++-+.0"⟩) ≠
        singleBuild.cache.get? (twinCall.naming.key ⟨"Widget", "lib", "1.+++.++-+.0"⟩) := by
  obtain ⟨-, -, hnew, hshort, hstrides, hstrides'⟩ := twinCall_computed
  have hready : IsReady twinCall.setting [⟨"Widget", "right", "1"⟩] twinCall.disk :=
    (isReady_put_folderDisk hshort hnew).congr rfl
  obtain ⟨last, disk, hlast, hafter⟩ := twinCall.exists_after hready hstrides
  obtain ⟨last', disk', hlast', hafter'⟩ :=
    (twinCall.without ⟨"Widget", "left", "1"⟩).exists_after (hready.congr rfl) hstrides'
  obtain ⟨hover, hwrites, hvisited, hfetched⟩ := of_decide_eq_true hlast
  obtain ⟨hover', hwrites', hvisited', hfailed⟩ := of_decide_eq_true hlast'
  rw [twinBuild, singleBuild, hafter, hafter']
  refine ⟨⟨hover, hover'⟩, ⟨hwrites, hwrites'⟩, ⟨hvisited, hvisited'⟩, fun hsame => ?_⟩
  have hentries : last.cache.get? (twinCall.naming.key ⟨"Widget", "lib", "1.+++.++-+.0"⟩) =
      last'.cache.get? (twinCall.naming.key ⟨"Widget", "lib", "1.+++.++-+.0"⟩) := hsame
  rw [hentries, hfailed] at hfetched
  cases hfetched

set_option maxRecDepth 100000 in
theorem hiddenCall_computed :
    hiddenCall.ClosedBy hiddenList ∧
      (∀ first ∈ hiddenList, ∀ second ∈ hiddenList,
        (hiddenCall.naming.identity first).identifier =
          (hiddenCall.naming.identity second).identifier → first = second) ∧
      (∀ reference ∈ hiddenList, ∀ dep ∈ hiddenCall.deps reference,
        reference.child dep ∉ hiddenCall.references) ∧
      detourCall.disk.entry? ["com", "w"] = some .directory ∧
      detourCall.disk.entry? [detourCall.naming.moduleName ⟨"ui", "item", "1"⟩, "com", "w"] =
        none ∧
      (earlyBuild.isFinished = true ∧ lateBuild.isFinished = true) ∧
      (earlyBuild.HasNoWriteErrors ∧ lateBuild.HasNoWriteErrors) ∧
      (earlyBuild.IsVisited ⟨"ui", "menu", "1"⟩ ∧ lateBuild.IsVisited ⟨"ui", "menu", "1"⟩) ∧
      earlyBuild.cache.get? (hiddenCall.naming.key ⟨"ui", "menu", "1"⟩) ≠
        lateBuild.cache.get? (hiddenCall.naming.key ⟨"ui", "menu", "1"⟩) := by
  decide +kernel

/-- A failure shows at other components if two of them have one identifier, or if the folder is missing
and the way to it leads through a missing folder and back. -/
theorem failures_spill_if_not_orderly :
    (BuildsIn ⟨"/w"⟩ twinCall.setting ∧ twinCall.disk.IsTidy ((⟨"/w"⟩ : Path) / "com") ∧
      (∀ root ∈ twinCall.references, ∀ other ∈ twinCall.references,
        ¬Relation.TransGen twinCall.Needs root other ∧
          ¬Relation.TransGen (twinCall.without ⟨"Widget", "left", "1"⟩).Needs root other) ∧
      ∃ build build', Spills twinCall ⟨"Widget", "left", "1"⟩ ⟨"Widget", "lib", "1.+++.++-+.0"⟩
        build build') ∧
    (BuildsIn ⟨"/w/away/.."⟩ hiddenCall.setting ∧ hiddenCall.disk.IsTree ∧
      (∀ first second, hiddenCall.Meets first → hiddenCall.Meets second →
        (hiddenCall.naming.identity first).identifier =
          (hiddenCall.naming.identity second).identifier → first = second) ∧
      (∀ root ∈ hiddenCall.references, ∀ other ∈ hiddenCall.references,
        ¬Relation.TransGen hiddenCall.Needs root other ∧
          ¬Relation.TransGen (hiddenCall.without ⟨"ui", "page", "1"⟩).Needs root other) ∧
      ∃ build build', Spills hiddenCall ⟨"ui", "page", "1"⟩ ⟨"ui", "menu", "1"⟩ build build') := by
  constructor
  · obtain ⟨hclosed, hapart, hnew, -⟩ := twinCall_computed
    obtain ⟨hover, hwrites, hvisited, hentries⟩ := twinBuild_computed
    have htree : twinCall.disk.IsTree :=
      isTree_folderDisk.put (by simp [folderDisk, Disk.entry_put]) hnew (.file [])
    have hnone := hclosed.apart hapart
    exact ⟨⟨.jsx, "r", "c", rfl⟩, ⟨htree, .inl (by decide)⟩,
      fun root hroot other hother => ⟨hnone root hroot other hother, fun hreach =>
        hnone root hroot other hother (reaches_of_without hreach)⟩,
      twinBuild, singleBuild,
      { steps := twinCall.steps_after _
        steps' := (twinCall.without ⟨"Widget", "left", "1"⟩).steps_after _
        finished := hover, writes := hwrites, other := by decide, visited := hvisited
        entries := hentries }⟩
  · obtain ⟨hclosed, hdistinct, hapart, hfolder, hnew, hover, hwrites, hvisited, hentries⟩ :=
      hiddenCall_computed
    obtain ⟨-, -, -, hnew', -⟩ := detourCall_computed
    have htree : hiddenCall.disk.IsTree :=
      (isTree_folderDisk.put (by simp [folderDisk, Disk.entry_put]) hnew' (.file [])).put hfolder hnew
        (.file [])
    have hnone := hclosed.apart hapart
    exact ⟨⟨.jsx, "r", "c", rfl⟩, htree,
      fun first second hfirst hsecond =>
        hdistinct first (hclosed.mem hfirst) second (hclosed.mem hsecond),
      fun root hroot other hother => ⟨hnone root hroot other hother, fun hreach =>
        hnone root hroot other hother (reaches_of_without hreach)⟩,
      earlyBuild, lateBuild,
      { steps := hiddenCall.steps_after _
        steps' := (hiddenCall.without ⟨"ui", "page", "1"⟩).steps_after _
        finished := hover, writes := hwrites, other := by decide, visited := hvisited
        entries := hentries }⟩

end ComponentTags.Build
