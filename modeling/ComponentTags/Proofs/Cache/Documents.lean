import Mathlib.Data.List.Forall2
import ComponentTags.Cache.Document
import ComponentTags.Proofs.Json.Documents

/-!
Cache documents. The document that a cache is written to is read as what the cache holds, whatever the
components are called.
-/

namespace ComponentTags

section Folds

variable {κ α σ : Type} [DecidableEq κ] {set : σ → κ → α → σ} {get : σ → κ → Option α}

/-- No key is paired with two values. -/
def IsFunctional (pairs : List (κ × α)) : Prop :=
  ∀ key first second, (key, first) ∈ pairs → (key, second) ∈ pairs → first = second

/-- What is set for one key after another is there, and all else is as it was. -/
theorem get_foldl (hset : ∀ state key value other,
      get (set state key value) other = if key = other then some value else get state other)
    {pairs : List (κ × α)} (hpairs : IsFunctional pairs) (state : σ) (key : κ) (value : α) :
    get (pairs.foldl (fun state pair => set state pair.1 pair.2) state) key = some value ↔
      (key, value) ∈ pairs ∨ (∀ other, (key, other) ∉ pairs) ∧ get state key = some value := by
  induction pairs generalizing state with
  | nil => simp
  | cons pair pairs ih =>
      have htail : IsFunctional pairs := fun key first second hfirst hsecond =>
        hpairs key first second (List.mem_cons_of_mem _ hfirst) (List.mem_cons_of_mem _ hsecond)
      rw [List.foldl_cons, ih htail, hset]
      obtain ⟨first, found⟩ := pair
      by_cases hkey : first = key
      · subst hkey
        have hsame : ∀ other, (first, other) ∈ pairs → other = found := fun other hother =>
          hpairs first other found (List.mem_cons_of_mem _ hother) List.mem_cons_self
        rw [if_pos rfl]
        constructor
        · rintro (hmem | ⟨-, hvalue⟩)
          · exact .inl (List.mem_cons_of_mem _ hmem)
          · cases hvalue
            exact .inl List.mem_cons_self
        · rintro (hmem | ⟨hnone, -⟩)
          · rcases List.mem_cons.1 hmem with heq | hmem
            · cases heq
              by_cases hagain : ∃ other, (first, other) ∈ pairs
              · obtain ⟨other, hother⟩ := hagain
                exact .inl (hsame other hother ▸ hother)
              · exact .inr ⟨fun other hother => hagain ⟨other, hother⟩, rfl⟩
            · exact .inl hmem
          · exact absurd List.mem_cons_self (hnone found)
      · have hne : ∀ other, (key, other) ≠ (first, found) := by
          rintro other heq
          cases heq
          exact hkey rfl
        simp [hkey, hne, List.mem_cons]

theorem get_foldl_fresh (hset : ∀ state key value other,
      get (set state key value) other = if key = other then some value else get state other)
    {pairs : List (κ × α)} (hpairs : IsFunctional pairs) {state : σ} {key : κ}
    (hfresh : get state key = none) {value : α} :
    get (pairs.foldl (fun state pair => set state pair.1 pair.2) state) key = some value ↔
      (key, value) ∈ pairs := by
  rw [get_foldl hset hpairs, hfresh]
  simp

omit [DecidableEq κ] in
theorem isFunctional_toList [Ord κ] [Std.TransOrd κ] [Std.LawfulEqOrd κ]
    (map : Std.ExtTreeMap κ α compare) : IsFunctional map.toList := by
  intro key first second hfirst hsecond
  rw [Std.ExtTreeMap.mem_toList_iff_getElem?_eq_some] at hfirst hsecond
  rw [hfirst] at hsecond
  exact Option.some.inj hsecond

theorem getElem?_insert_eq [Ord κ] [Std.TransOrd κ] [Std.LawfulEqOrd κ]
    (map : Std.ExtTreeMap κ α compare) (key : κ) (value : α) (other : κ) :
    (map.insert key value)[other]? = if key = other then some value else map[other]? := by
  rw [Std.ExtTreeMap.getElem?_insert]
  simp

end Folds

namespace CacheDocument

/-- Reading the members of a map gives the map. -/
theorem mapOfMembers_toList {α : Type} (map : TextMap α) : mapOfMembers map.toList = map := by
  refine Std.ExtTreeMap.ext_getElem? fun key => Option.ext fun value => ?_
  calc (mapOfMembers map.toList)[key]? = some value ↔ (key, value) ∈ map.toList :=
        get_foldl_fresh getElem?_insert_eq (isFunctional_toList map)
          Std.ExtTreeMap.getElem?_empty
    _ ↔ map[key]? = some value := Std.ExtTreeMap.mem_toList_iff_getElem?_eq_some

/-- What a document says of a component. -/
def find (document : TextMap (TextMap CacheEntry)) (key : ComponentKey) : Option CacheEntry :=
  (document[key.tag]?.getD ∅)[key.identifier]?

/-- The entries of a document, with their keys. -/
def pairs (document : TextMap (TextMap CacheEntry)) : List (ComponentKey × CacheEntry) :=
  document.toList.flatMap fun (tag, components) =>
    components.toList.map fun (identifier, entry) => (⟨tag, identifier⟩, entry)

theorem mem_pairs {document : TextMap (TextMap CacheEntry)} {key : ComponentKey}
    {entry : CacheEntry} : (key, entry) ∈ pairs document ↔ find document key = some entry := by
  simp only [pairs, List.mem_flatMap, List.mem_map, Prod.exists,
    Std.ExtTreeMap.mem_toList_iff_getElem?_eq_some, find]
  constructor
  · rintro ⟨tag, components, htag, identifier, found, hfound, heq⟩
    cases heq
    rw [htag]
    exact hfound
  · intro hfound
    cases htag : document[key.tag]? with
    | none =>
        rw [htag] at hfound
        simp at hfound
    | some components =>
        rw [htag] at hfound
        exact ⟨key.tag, components, htag, key.identifier, entry, hfound, rfl⟩

theorem getElem?_flatten (document : TextMap (TextMap CacheEntry)) (key : ComponentKey) :
    (flatten document)[key]? = find document key := by
  have hpairs : IsFunctional (pairs document) := by
    intro key first second hfirst hsecond
    rw [mem_pairs] at hfirst hsecond
    rw [hfirst] at hsecond
    exact Option.some.inj hsecond
  have hflatten : flatten document =
      (pairs document).foldl (fun entries pair => entries.insert pair.1 pair.2) ∅ := by
    rw [flatten, Std.ExtTreeMap.foldl_eq_foldl_toList, pairs, List.foldl_flatMap]
    simp only [Std.ExtTreeMap.foldl_eq_foldl_toList, List.foldl_map]
  refine Option.ext fun entry => ?_
  rw [hflatten, ← mem_pairs]
  exact get_foldl_fresh getElem?_insert_eq hpairs Std.ExtTreeMap.getElem?_empty

theorem find_group (entries : CacheMap) (key : ComponentKey) :
    find (group entries) key = entries[key]? := by
  have hset : ∀ (document : TextMap (TextMap CacheEntry)) (key : ComponentKey)
      (entry : CacheEntry) (other : ComponentKey),
      find (document.alter key.tag fun components =>
        some ((components.getD ∅).insert key.identifier entry)) other =
          if key = other then some entry else find document other := by
    intro document key entry other
    obtain ⟨tag, identifier⟩ := key
    obtain ⟨tag', identifier'⟩ := other
    simp only [find, Std.ExtTreeMap.getElem?_alter, ComponentKey.mk.injEq,
      Std.LawfulEqCmp.compare_eq_iff_eq]
    by_cases htag : tag = tag'
    · subst htag
      rw [if_pos rfl, Option.getD_some, getElem?_insert_eq]
      simp
    · rw [if_neg htag, if_neg fun h => htag h.1]
  refine Option.ext fun entry => ?_
  rw [group, Std.ExtTreeMap.foldl_eq_foldl_toList,
    ← Std.ExtTreeMap.mem_toList_iff_getElem?_eq_some]
  exact get_foldl_fresh hset (isFunctional_toList entries) rfl

/-- Sorting the entries by their tags loses none of them. -/
theorem flatten_group (entries : CacheMap) : flatten (group entries) = entries :=
  Std.ExtTreeMap.ext_getElem? fun key => (getElem?_flatten _ key).trans (find_group entries key)

/-! ### Values -/

section Values

open Json

variable {α : Type} {value : Value}

theorem ok_bind {ε β γ : Type} (found : β) (next : β → Except ε γ) :
    ((Except.ok found : Except ε β) >>= next) = next found :=
  rfl

theorem named_cons {kind : RecordKind} {found : List (String × Value)} {key : RawText}
    {name : String} {members : List (RawText × Value)} (hkey : key.decode = .ok name)
    (hfield : kind.fields.contains name = true) (hnew : found.any (·.1 = name) = false) :
    kind.named found ((key, value) :: members) = kind.named (found ++ [(name, value)]) members := by
  rw [RecordKind.named, hkey]
  dsimp only
  rw [if_pos hfield, hnew]
  rfl

/-- A record of two fields is read as these two. -/
theorem read_spelled {kind : RecordKind} {first second : String} {tree tree' : Tree}
    (hfields : kind.fields = [first, second]) (hne : first ≠ second)
    (h : Spells value (.object [(first, tree), (second, tree')])) :
    ∃ record one other, kind.read value = .ok record ∧
      record.field? first = some one ∧ Spells one tree ∧
      record.field? second = some other ∧ Spells other tree' := by
  obtain - | - | - | ⟨extent, hmembers⟩ := h
  obtain - | @⟨key, one, _, _, _, _, hkey, hone, hmembers⟩ := hmembers
  obtain - | @⟨key', other, _, _, _, _, hkey', hother, hmembers⟩ := hmembers
  cases hmembers
  have hnamed : kind.named [] [(key, one), (key', other)] =
      .ok [(first, one), (second, other)] := by
    rw [named_cons hkey (by simp [hfields]) rfl,
      named_cons hkey' (by simp [hfields]) (by simp [hne])]
    rfl
  let record : Record := ⟨kind, extent, true, [(first, one), (second, other)]⟩
  refine ⟨record, one, other, ?_, ?_, hone, ?_, hother⟩
  · rw [RecordKind.read, hnamed]
    rfl
  · simp [record, Record.field?]
  · have hother : (second == first) = false := beq_false_of_ne hne.symm
    simp [record, Record.field?, List.lookup_cons, hother]

theorem asText_spelled {text : String} (h : Spells value (.text text)) :
    value.asText = .ok text := by
  obtain - | hdecode := h
  exact hdecode

theorem asBool_spelled {flag : Bool} (h : Spells value (.bool flag)) : value.asBool = .ok flag := by
  cases h
  rfl

theorem asItems_spelled {trees : List Tree} (h : Spells value (.array trees)) :
    ∃ items, value.asItems = .ok items ∧ SpellItems items trees := by
  obtain - | - | ⟨extent, hitems⟩ := h
  exact ⟨_, rfl, hitems⟩

theorem field_eq {record : Record} {name : String} (h : record.field? name = some value) :
    record.field name = .ok value := by
  rw [Record.field, h]

theorem dependency_spelled {dep : Dependency} (h : Spells value (dependencyTree dep)) :
    dependency value = .ok dep := by
  have hfields : dependencyKind.fields = ["namespace", "version"] := rfl
  obtain ⟨record, space, version, hread, hspace, hspaceText, hversion, hversionText⟩ :=
    read_spelled hfields (by decide) h
  simp only [dependency, hread, ok_bind, field_eq hspace, field_eq hversion,
    asText_spelled hspaceText, asText_spelled hversionText]
  rfl

theorem mapM_dependency {items : List Value} {deps : List Dependency}
    (h : SpellItems items (deps.map dependencyTree)) : items.mapM dependency = .ok deps := by
  induction deps generalizing items with
  | nil =>
      cases h
      rfl
  | cons dep deps ih =>
      obtain - | ⟨hitem, hitems⟩ := h
      rw [List.mapM_cons, dependency_spelled hitem, ih hitems]
      rfl

theorem entry_spelled {known : CacheEntry} (h : Spells value (entryTree known)) :
    entry value = .ok known := by
  have hfields : entryKind.fields = ["success", "deps"] := rfl
  obtain ⟨record, success, deps, hread, hsuccess, hflag, hdeps, harray⟩ :=
    read_spelled hfields (by decide) h
  obtain ⟨items, hitems, hspell⟩ := asItems_spelled harray
  simp only [entry, hread, hsuccess, hdeps, asBool_spelled hflag, hitems, ok_bind,
    mapM_dependency hspell]
  rfl

/-- A member stands for a tree under its name. -/
def SpellsMember (member : String × Value) (tree : String × Tree) : Prop :=
  member.1 = tree.1 ∧ Spells member.2 tree.2

theorem asMembers_spelled {trees : List (String × Tree)} (h : Spells value (.object trees)) :
    ∃ found, value.asMembers = .ok found ∧ List.Forall₂ SpellsMember found trees := by
  obtain - | - | - | @⟨extent, members, _, hmembers⟩ := h
  rw [Value.asMembers]
  induction members generalizing trees with
  | nil =>
      cases hmembers
      exact ⟨[], rfl, .nil⟩
  | cons member members ih =>
      obtain - | @⟨key, _, _, name, _, _, hkey, hvalue, hmembers⟩ := hmembers
      obtain ⟨found, hfound, hspelled⟩ := ih hmembers
      refine ⟨(name, _) :: found, ?_, .cons ⟨rfl, hvalue⟩ hspelled⟩
      simp only [List.mapM_cons, hfound, hkey]
      rfl

variable {readValue : Value → Except Json.Fault α} {toTree : α → Tree}

theorem mapM_members
    (hread : ∀ {value known}, Spells value (toTree known) → readValue value = .ok known)
    {found : List (String × Value)} {known : List (String × α)}
    (h : List.Forall₂ SpellsMember found (known.map fun pair => (pair.1, toTree pair.2))) :
    (found.mapM fun (key, value) => do return (key, ← readValue value)) = .ok known := by
  induction known generalizing found with
  | nil =>
      cases h
      rfl
  | cons pair known ih =>
      obtain - | ⟨⟨hname, hvalue⟩, hrest⟩ := h
      rw [List.mapM_cons, ih hrest]
      simp only [hread hvalue, hname, ok_bind]
      rfl

/-- **A map is read as it was written**, if its values are. -/
theorem members_spelled
    (hread : ∀ {value known}, Spells value (toTree known) → readValue value = .ok known)
    {map : TextMap α}
    (h : Spells value (.object (map.toList.map fun pair => (pair.1, toTree pair.2)))) :
    members readValue value = .ok map := by
  obtain ⟨found, hmembers, hspelled⟩ := asMembers_spelled h
  rw [members, hmembers, ok_bind, mapM_members hread hspelled, ok_bind, mapOfMembers_toList]
  rfl

end Values

/-! ### Whole documents -/

open Json

theorem isBlankText_render (entries : CacheMap) : isBlankText (render entries) = false := by
  have hopens : ∃ text, (tree entries).chars 0 = '\x7b' :: text := by
    rw [tree]
    cases (group entries).toList with
    | nil => exact ⟨_, rfl⟩
    | cons pair rest => exact ⟨_, rfl⟩
  obtain ⟨text, htext⟩ := hopens
  rw [render, Tree.render, htext, isBlankText, String.toList_ofList, List.all_cons]
  rfl

/-- **What is written to a document is read from it.** -/
theorem parse_render (entries : CacheMap) : parse (render entries) = .ok entries := by
  obtain ⟨value, hread, hspells⟩ := read_render (tree entries)
  have hvalue : members (members entry) value = .ok (group entries) :=
    members_spelled (members_spelled entry_spelled) hspells
  rw [parse, isBlankText_render, if_neg Bool.false_ne_true, render, hread, ok_bind, hvalue, ok_bind,
    flatten_group]
  rfl

end CacheDocument

end ComponentTags
