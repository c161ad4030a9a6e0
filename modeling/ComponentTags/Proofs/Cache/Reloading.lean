import ComponentTags.Cache.Basic
import ComponentTags.Proofs.Cache.Documents
import ComponentTags.Proofs.Disk.Leavings

/-!
Reloading. A cache that was flushed is loaded as it was written, with every success that it knew; and a
flush takes away no file but a temporary one.
-/

namespace ComponentTags

theorem Disk.leaves_lock (disk : Disk) (document : Path) :
    Leaves [(lockPath document, [])] disk (disk.lock document).1 := by
  have hcreated : ∀ {ready locked : Disk} {spot : Spot}, disk.AgreesOff [] ready →
      ready.createFile (lockPath document) = .ok (locked, spot) →
        Leaves [(lockPath document, [])] disk locked := by
    intro ready locked spot hready hcreated
    obtain ⟨hspot, hentry, rfl⟩ := locate_ok_of_createFile hcreated
    exact (leaves_put hspot hentry).after hready
  unfold lock
  dsimp only
  cases (lockPath document).parent? with
  | none =>
      dsimp only
      split
      · next hopened => exact hcreated (.refl [] disk) hopened
      · exact .refl _ disk
  | some parent =>
      have hall : disk.AgreesOff [] (disk.createAll parent).1 :=
        agreesOff_createDirectories (parent.steps.length + 1) disk parent
      dsimp only
      generalize disk.createAll parent = made at hall ⊢
      obtain ⟨ready, fault | ok⟩ := made
      · exact .of_agreesOff _ hall
      · dsimp only
        split
        · next hopened => exact hcreated hall hopened
        · exact .of_agreesOff _ hall

namespace Cache

variable {mine theirs : CacheMap} {key : ComponentKey} {entry : CacheEntry} {cache : Cache}
  {disk : Disk} {document : Path}

theorem mergeEntry_of_success (h : entry.success = true) (found : CacheEntry) :
    mergeEntry (some entry) found = entry := by
  simp [mergeEntry, h]

/-- A success that is known is not given up for what the document says. -/
theorem getElem?_merge (hmine : mine[key]? = some entry) (hsuccess : entry.success = true) :
    (merge mine theirs)[key]? = some entry := by
  rw [merge, Std.ExtTreeMap.foldl_eq_foldl_toList]
  induction theirs.toList generalizing mine with
  | nil => exact hmine
  | cons pair pairs ih =>
      rw [List.foldl_cons]
      apply ih
      rw [getElem?_insert_eq]
      by_cases hkey : pair.1 = key
      · rw [if_pos hkey, hkey, hmine, mergeEntry_of_success hsuccess]
      · rw [if_neg hkey, hmine]

/-- What a flush writes that goes well, and what is there when it does. -/
theorem exists_written (hdocument : cache.document = some document)
    (hflushed : (cache.flush disk).outcome = .ok ()) :
    ∃ (ready : Disk) (theirs : CacheMap), Disk.Leaves [(lockPath document, [])] disk ready ∧
      (ready.writeChanged document (CacheDocument.render (merge cache.entries theirs))).2.isOk =
        true ∧
      (cache.flush disk).disk =
        (ready.writeChanged document (CacheDocument.render (merge cache.entries theirs))).1 ∧
      (cache.flush disk).cache = { cache with entries := merge cache.entries theirs } := by
  have hlock := disk.leaves_lock document
  revert hflushed
  unfold flush
  rw [hdocument]
  dsimp only
  generalize disk.lock document = locked at hlock ⊢
  obtain ⟨ready, failure | ok⟩ := locked
  · nofun
  · dsimp only at hlock ⊢
    intro hflushed
    refine ⟨ready, (ready.readCacheDocument document).getD ∅, hlock, ?_, rfl, rfl⟩
    split at hflushed
    · next hwritten => rw [hwritten]; rfl
    · cases hflushed

/-- **A cache that was flushed is loaded as it was written.** -/
theorem load_flush (hdocument : cache.document = some document)
    (hflushed : (cache.flush disk).outcome = .ok ()) :
    load (cache.flush disk).disk document = ((cache.flush disk).cache, []) := by
  obtain ⟨ready, theirs, -, hwritten, hdisk, hcache⟩ := exists_written hdocument hflushed
  have hread : (cache.flush disk).disk.readCacheDocument document =
      some (merge cache.entries theirs) := by
    rw [Disk.readCacheDocument, Disk.readText, hdisk, Disk.read_of_writeChanged hwritten]
    dsimp only
    rw [Utf8.decode?_encode]
    dsimp only
    rw [String.ofList_toList, CacheDocument.parse_render]
    rfl
  rw [load, hread, hcache, hdocument]

theorem get?_flush (hdocument : cache.document = some document)
    (hflushed : (cache.flush disk).outcome = .ok ()) (hentry : cache.get? key = some entry)
    (hsuccess : entry.success = true) : (cache.flush disk).cache.get? key = some entry := by
  obtain ⟨ready, theirs, -, -, -, hcache⟩ := exists_written hdocument hflushed
  rw [hcache]
  exact getElem?_merge hentry hsuccess

theorem holds_flush (hdocument : cache.document = some document)
    (hflushed : (cache.flush disk).outcome = .ok ()) {path : Path} (hpath : Disk.EndsLasting path)
    (hheld : disk.holds path = true) : (cache.flush disk).disk.holds path = true := by
  obtain ⟨ready, theirs, hlock, -, hdisk, -⟩ := exists_written hdocument hflushed
  rw [hdisk]
  exact (Disk.leaves_writeChanged ready document _).holds hpath (hlock.holds hpath hheld)

end Cache

end ComponentTags
