import ComponentTags.Cache.Basic
import ComponentTags.Proofs.Cache.Documents

/-!
Merging what two caches know. A merged map has the keys and the successes of both, and the deps of each
success are those that one of the two gave it.
-/

namespace ComponentTags

/-- The component is known. -/
def Has (key : ComponentKey) (map : CacheMap) : Prop :=
  key ∈ map

/-- The component is known to have been fetched and written. -/
def Succeeds (key : ComponentKey) (map : CacheMap) : Prop :=
  ∃ entry, map[key]? = some entry ∧ entry.success = true

/-- What the deps of every success were given as. -/
def Vouched (given : ComponentKey → List Dependency → Prop) (map : CacheMap) : Prop :=
  ∀ key entry, map[key]? = some entry → entry.success = true → given key entry.deps

/-- What holds of two maps that are merged if it holds of one of them, and only then. -/
structure Joins (P : CacheMap → Prop) : Prop where
  merge : ∀ mine theirs, P (Cache.merge mine theirs) ↔ P mine ∨ P theirs
  empty : ¬P ∅

namespace Cache

variable {mine theirs : CacheMap} {key : ComponentKey} {entry : CacheEntry}

theorem getElem?_foldl_merge {pairs : List (ComponentKey × CacheEntry)} (mine : CacheMap)
    (hpairs : pairs.Pairwise fun pair other => pair.1 ≠ other.1) (key : ComponentKey) :
    (∀ entry, (key, entry) ∈ pairs →
      (pairs.foldl (fun entries pair =>
        entries.insert pair.1 (mergeEntry entries[pair.1]? pair.2)) mine)[key]? =
          some (mergeEntry mine[key]? entry)) ∧
    ((∀ entry, (key, entry) ∉ pairs) →
      (pairs.foldl (fun entries pair =>
        entries.insert pair.1 (mergeEntry entries[pair.1]? pair.2)) mine)[key]? = mine[key]?) := by
  induction pairs generalizing mine with
  | nil => exact ⟨nofun, fun _ => rfl⟩
  | cons pair pairs ih =>
      obtain ⟨hfirst, hrest⟩ := List.pairwise_cons.1 hpairs
      obtain ⟨name, found⟩ := pair
      have hthen := ih (mine.insert name (mergeEntry mine[name]? found)) hrest
      rw [getElem?_insert_eq] at hthen
      refine ⟨fun entry hmem => ?_, fun hnone => ?_⟩
      · rcases List.mem_cons.1 hmem with heq | hmem
        · cases heq
          rw [List.foldl_cons, hthen.2 fun other hother => hfirst _ hother rfl, if_pos rfl]
        · rw [List.foldl_cons, hthen.1 entry hmem, if_neg (hfirst _ hmem)]
      · have hne : name ≠ key := by
          rintro rfl
          exact hnone found List.mem_cons_self
        rw [List.foldl_cons, hthen.2 fun other hother => hnone other (List.mem_cons_of_mem _ hother),
          if_neg hne]

/-- What is known of a component after merging: what was known, unless the other map knows better. -/
theorem getElem?_merge_eq (mine theirs : CacheMap) (key : ComponentKey) :
    (merge mine theirs)[key]? =
      match theirs[key]? with
      | none => mine[key]?
      | some entry => some (mergeEntry mine[key]? entry) := by
  have hpairs : theirs.toList.Pairwise fun pair other => pair.1 ≠ other.1 :=
    Std.ExtTreeMap.distinct_keys_toList.imp fun hne heq => hne (by rw [heq]; simp)
  obtain ⟨hthere, habsent⟩ := getElem?_foldl_merge mine hpairs key
  rw [merge, Std.ExtTreeMap.foldl_eq_foldl_toList]
  cases hfound : theirs[key]? with
  | none =>
      refine habsent fun entry hmem => ?_
      rw [Std.ExtTreeMap.mem_toList_iff_getElem?_eq_some, hfound] at hmem
      cases hmem
  | some entry => exact hthere entry (Std.ExtTreeMap.mem_toList_iff_getElem?_eq_some.2 hfound)

theorem joins_has (key : ComponentKey) : Joins (Has key) where
  merge mine theirs := by
    simp only [Has, Std.ExtTreeMap.mem_iff_isSome_getElem?, getElem?_merge_eq]
    cases theirs[key]? <;> simp
  empty := by simp [Has]

theorem joins_succeeds (key : ComponentKey) : Joins (Succeeds key) where
  merge mine theirs := by
    simp only [Succeeds, getElem?_merge_eq]
    cases theirs[key]? with
    | none => simp
    | some entry =>
        cases mine[key]? with
        | none => cases hsuccess : entry.success <;> simp [mergeEntry, CacheEntry.unknown, hsuccess]
        | some found =>
            cases hsuccess : entry.success <;> cases hfound : found.success <;>
              simp [mergeEntry, hsuccess, hfound]
  empty := by simp [Succeeds]

/-- A success keeps the deps that it was given with. -/
theorem getElem?_of_merge (h : (merge mine theirs)[key]? = some entry)
    (hsuccess : entry.success = true) : mine[key]? = some entry ∨ theirs[key]? = some entry := by
  rw [getElem?_merge_eq] at h
  cases htheirs : theirs[key]? with
  | none =>
      rw [htheirs] at h
      exact .inl h
  | some found =>
      rw [htheirs] at h
      obtain rfl := Option.some.inj h
      unfold mergeEntry at hsuccess ⊢
      dsimp only at hsuccess ⊢
      split
      · exact .inr rfl
      · next hkept =>
          rw [if_neg hkept] at hsuccess
          cases hmine : mine[key]? with
          | none =>
              rw [hmine] at hsuccess
              cases hsuccess
          | some known => exact .inl rfl

end Cache

namespace Vouched

variable {given : ComponentKey → List Dependency → Prop} {mine theirs : CacheMap}
  {key : ComponentKey} {deps : List Dependency}

theorem empty : Vouched given ∅ := by
  intro key entry hentry
  simp at hentry

theorem mono {more : ComponentKey → List Dependency → Prop} (h : Vouched given mine)
    (hmore : ∀ key deps, given key deps → more key deps) : Vouched more mine :=
  fun key entry hentry hsuccess => hmore _ _ (h key entry hentry hsuccess)

theorem merge (hmine : Vouched given mine) (htheirs : Vouched given theirs) :
    Vouched given (Cache.merge mine theirs) := by
  intro key entry hentry hsuccess
  rcases Cache.getElem?_of_merge hentry hsuccess with hentry | hentry
  · exact hmine key entry hentry hsuccess
  · exact htheirs key entry hentry hsuccess

theorem insert (h : Vouched given mine) (hgiven : given key deps) :
    Vouched given (mine.insert key ⟨true, deps⟩) := by
  intro other entry hentry hsuccess
  rw [getElem?_insert_eq] at hentry
  split at hentry
  · next heq =>
      cases hentry
      exact heq ▸ hgiven
  · exact h other entry hentry hsuccess

theorem insertIfNew (h : Vouched given mine) :
    Vouched given (mine.insertIfNew key .unknown) := by
  intro other entry hentry hsuccess
  rw [Std.ExtTreeMap.getElem?_insertIfNew] at hentry
  split at hentry
  · cases hentry
    cases hsuccess
  · exact h other entry hentry hsuccess

end Vouched

end ComponentTags
