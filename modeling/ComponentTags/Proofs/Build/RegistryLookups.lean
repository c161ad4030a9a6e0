import ComponentTags.Proofs.Artifact.Registries
import ComponentTags.Proofs.Build.Imports

/-!
Looking components up. A module that a build writes registers each component once; under the key of
a component stands the component itself, unless one with the same key is registered behind it.
-/

namespace ComponentTags.Build

theorem nodup_distinctBy {α : Type} (key : α → ComponentKey) (seen : List ComponentKey)
    (items : List α) :
    ((distinctBy key seen items).map key).Nodup ∧
      ∀ item ∈ distinctBy key seen items, key item ∉ seen := by
  induction items generalizing seen with
  | nil => simp [distinctBy]
  | cons item items ih =>
      rw [distinctBy]
      split
      · exact ih seen
      · next hnew =>
          obtain ⟨hnodup, hrest⟩ := ih (key item :: seen)
          rw [List.contains_iff_mem] at hnew
          refine ⟨?_, ?_⟩
          · rw [List.map_cons, List.nodup_cons]
            refine ⟨?_, hnodup⟩
            rw [List.mem_map]
            rintro ⟨other, hother, heq⟩
            exact hrest other hother (heq ▸ List.mem_cons_self)
          · intro other hother
            rcases List.mem_cons.1 hother with rfl | hmem
            · exact hnew
            · exact fun hseen => hrest other hmem (List.mem_cons_of_mem _ hseen)

variable {setting : BuildSetting} {build : Build} {owner : ComponentKey → Option Nat}
  {cache : Cache} {disk : Disk} {turns : List Turn} {index : Nat} {visit : Visit} {deed : Deed}

/-- What a module registers: some components of one tag, none of them twice. -/
theorem Sound.exists_registered (h : Sound setting cache turns build owner)
    (hvisit : build.visits[index]? = some visit) (hdeed : visit.deed? setting = some deed) :
    ∃ order : List Reference, deed.registrations = order.map setting.workshop.registration ∧
      (order.map setting.workshop.naming.key).Nodup ∧
      ∀ reference ∈ order, reference.tag = deed.reference.tag := by
  cases deed with
  | entry reference payload closure =>
      obtain ⟨order, hclosure, horder, -, -⟩ :=
        h.gather.exists_order h.faithful h.guarded hvisit hdeed
      refine ⟨order, hclosure, horder.nodup.1, horder.forall_mem ?_ ?_⟩
      · intro child hchild
        obtain ⟨dep, -, rfl⟩ := List.mem_map.1 hchild
        rfl
      · intro node hnode other hother
        obtain ⟨dep, -, rfl⟩ := List.mem_map.1 hother
        exact hnode
  | dependency reference payload needed =>
      obtain ⟨-, rfl, rfl⟩ := stage_of_dependency hdeed
      let components := distinctBy NamedReference.key []
        (payload.deps.map fun dep => named setting (visit.component.reference.child dep))
      have hcomponents : ∀ component ∈ components, ∃ dep,
          component = named setting (visit.component.reference.child dep) := by
        intro component hcomponent
        obtain ⟨dep, -, rfl⟩ := List.mem_map.1 (mem_of_mem_distinctBy hcomponent)
        exact ⟨dep, rfl⟩
      refine ⟨components.map (·.reference), ?_, ?_, ?_⟩
      · rw [List.map_map]
        refine List.map_congr_left fun component hcomponent => ?_
        obtain ⟨dep, rfl⟩ := hcomponents component hcomponent
        rfl
      · have hkeys : (components.map (·.reference)).map setting.workshop.naming.key =
            components.map NamedReference.key := by
          rw [List.map_map]
          refine List.map_congr_left fun component hcomponent => ?_
          obtain ⟨dep, rfl⟩ := hcomponents component hcomponent
          rfl
        rw [hkeys]
        exact (nodup_distinctBy _ _ _).1
      · intro child hchild
        obtain ⟨component, hcomponent, rfl⟩ := List.mem_map.1 hchild
        obtain ⟨dep, rfl⟩ := hcomponents component hcomponent
        rfl
  | message reference => exact ⟨[], rfl, List.nodup_nil, nofun⟩

/--
**What a key leads to.** A module that a build writes starts with lines that import no name twice;
once its assignments are carried out, the key of a component that it registers leads to that
component exactly if no component that is registered behind it has the same key, which takes
namespaces and versions that part one text at different hyphens.
-/
theorem registry_lookup_iff {dialect : Dialect} {directory : Path} {renderer start : String}
    (hworkshop : setting.workshop = .of dialect directory renderer start)
    (hrun : Run setting (Build.start cache disk) turns build)
    (hvisit : build.visits[index]? = some visit) (hdeed : visit.deed? setting = some deed) :
    ∃ lines rest declarations order,
      deed.text setting.workshop = textLines lines ++ rest ∧
      Import.AreAll declarations lines ∧ (declarations.map Import.localName).Nodup ∧
      deed.registrations = order.map setting.workshop.registration ∧
      ∀ front reference later, order = front ++ reference :: later →
        (registered lines reference.registryKey =
            some (setting.workshop.naming.identity reference).identifier ↔
          ∀ other ∈ later, ¬other.PartsOtherwise reference) := by
  have hproper : setting.workshop.naming.IsProper := by
    rw [hworkshop]
    exact Naming.isProper_of _ dialect start
  obtain ⟨owner, hsound⟩ := hrun.sound hproper
  obtain ⟨order, horder, hkeys, htags⟩ := hsound.exists_registered hvisit hdeed
  obtain ⟨rest, htext⟩ := deed.exists_text_eq setting.workshop
  have hidentifiers : (deed.registrations.map (·.identifier)).Nodup := by
    have hmap : order.map setting.workshop.naming.key =
        (deed.registrations.map (·.identifier)).map (ComponentKey.mk deed.reference.tag) := by
      rw [horder, List.map_map, List.map_map]
      exact List.map_congr_left fun reference hreference =>
        congrArg (ComponentKey.mk · _) (htags reference hreference)
    exact (hmap ▸ hkeys).of_map
  have hnamed : ∀ registration ∈ deed.registrations, registration.IsNamed := by
    intro registration hregistration
    obtain ⟨reference, -, rfl⟩ := List.mem_map.1 (horder ▸ hregistration)
    exact ⟨_, reference, hproper, rfl⟩
  refine ⟨deed.preamble setting.workshop, rest, deed.imports setting.workshop, order, htext,
    deed.areAll_preamble setting.workshop,
    deed.nodup_localNames setting.workshop hidentifiers hnamed, horder, ?_⟩
  rintro front reference later rfl
  have hother : ∀ other ∈ later,
      other.registryKey ≠ reference.registryKey ↔ ¬other.PartsOtherwise reference := by
    intro other hother
    rw [Ne, Reference.registryKey_eq_iff, not_or, and_iff_right_iff_imp]
    rintro - ⟨hspace, hversion⟩
    have htag : other.tag = reference.tag :=
      (htags other (by simp [hother])).trans (htags reference (by simp)).symm
    obtain rfl : other = reference := by
      cases other
      cases reference
      simp_all
    rw [List.map_append, List.map_cons] at hkeys
    exact (List.nodup_cons.1 hkeys.of_append_right).1 (List.mem_map_of_mem hother)
  rw [horder, List.map_append, List.map_cons] at hidentifiers
  rw [Deed.registered_preamble, horder, List.map_append, List.map_cons]
  refine (lastNamed_eq_iff hidentifiers).trans ?_
  rw [List.forall_mem_map]
  exact forall₂_congr hother

/-! ### Two components with one key -/

/-- The version of a cart that is called mini. -/
def miniVersion : Reference :=
  ⟨"ui", "cart", "mini-1"⟩

/-- A cart of its own that is called mini. -/
def miniCart : Reference :=
  ⟨"ui", "cart-mini", "1"⟩

/-- A setting in which the component `app` needs `shop`, which needs both. -/
def cartSetting : BuildSetting :=
  { menuSetting with
    endpoint := fun request =>
      let deps := if request.reference.space = "app" then [⟨"shop", "1"⟩] else
        [⟨"cart", "mini-1"⟩, ⟨"cart-mini", "1"⟩]
      some (.ok ({ runtime := "function () \x7b\x7d", deps }, [])) }

/-- The module of `shop`. -/
def shopModule : Deed :=
  .dependency ⟨"ui", "shop", "1"⟩
    { runtime := "function () \x7b\x7d", deps := [⟨"cart", "mini-1"⟩, ⟨"cart-mini", "1"⟩] }
    ([miniVersion, miniCart].map cartSetting.workshop.registration)

/-- The build of `app` when the module of `shop` is about to be written. -/
def cartBuild : Build :=
  ((Build.start .inMemory .empty).begin ([⟨"ui", "app", "1"⟩].map (named cartSetting))).sweep
    cartSetting [0, 0, 0, 1, 1, 1]

set_option maxRecDepth 100000 in
theorem exists_visit_cartBuild :
    ∃ turns visit, Run cartSetting (Build.start .inMemory .empty) turns cartBuild ∧
      cartBuild.visits[1]? = some visit ∧ visit.deed? cartSetting = some shopModule := by
  have hstart : Run cartSetting (Build.start .inMemory .empty) [] (Build.start .inMemory .empty) :=
    .start
  obtain ⟨turns, hrun⟩ := (hstart.begin [⟨"ui", "app", "1"⟩]).exists_sweep [0, 0, 0, 1, 1, 1]
  have hmodule : (cartBuild.visits[1]?.bind (Visit.deed? cartSetting)) = some shopModule := by
    decide +kernel
  obtain ⟨visit, hvisit, hdeed⟩ := Option.bind_eq_some_iff.1 hmodule
  exact ⟨turns, visit, hrun, hvisit, hdeed⟩

theorem key_leads_to_other :
    ∃ turns visit rest, Run cartSetting (Build.start .inMemory .empty) turns cartBuild ∧
      cartBuild.visits[1]? = some visit ∧ visit.deed? cartSetting = some shopModule ∧
      cartSetting.workshop.registration miniVersion ∈ shopModule.registrations ∧
      shopModule.text cartSetting.workshop =
        textLines (shopModule.preamble cartSetting.workshop) ++ rest ∧
      registered (shopModule.preamble cartSetting.workshop) miniVersion.registryKey =
        some (cartSetting.workshop.naming.identity miniCart).identifier ∧
      (cartSetting.workshop.naming.identity miniCart).identifier ≠
        (cartSetting.workshop.naming.identity miniVersion).identifier := by
  obtain ⟨turns, visit, hrun, hvisit, hdeed⟩ := exists_visit_cartBuild
  obtain ⟨rest, htext⟩ := shopModule.exists_text_eq cartSetting.workshop
  refine ⟨turns, visit, rest, hrun, hvisit, hdeed, by simp [shopModule, Deed.registrations], htext,
    ?_, by decide +kernel⟩
  rw [Deed.registered_preamble]
  decide +kernel

theorem registry_lookup_iff_of_carts :
    ∃ turns visit, Run cartSetting (Build.start .inMemory .empty) turns cartBuild ∧
      cartBuild.visits[1]? = some visit ∧ visit.deed? cartSetting = some shopModule ∧
      ∃ lines rest declarations order,
        shopModule.text cartSetting.workshop = textLines lines ++ rest ∧
        Import.AreAll declarations lines ∧ (declarations.map Import.localName).Nodup ∧
        shopModule.registrations = order.map cartSetting.workshop.registration ∧
        ∀ front reference later, order = front ++ reference :: later →
          (registered lines reference.registryKey =
              some (cartSetting.workshop.naming.identity reference).identifier ↔
            ∀ other ∈ later, ¬other.PartsOtherwise reference) := by
  obtain ⟨turns, visit, hrun, hvisit, hdeed⟩ := exists_visit_cartBuild
  exact ⟨turns, visit, hrun, hvisit, hdeed, registry_lookup_iff rfl hrun hvisit hdeed⟩

end ComponentTags.Build
