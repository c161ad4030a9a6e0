import ComponentTags.Proofs.Cache.Sharing
import ComponentTags.Proofs.Disk.Locks

/-!
Flushing. A flush that goes well merges the cache with the document and makes the cache, the document and
what is loaded from it one map; once they are one map, another flush does nothing.
-/

namespace ComponentTags

namespace Disk

variable {disk : Disk} {document : Path}

/-- **Under the lock a document is what stands at its place,** if it can be written afterwards. -/
theorem IsLocked.readCacheDocument (h : disk.IsLocked document) {text : String}
    (hwritten : (disk.writeChanged document text).2.isOk = true) :
    (disk.readCacheDocument document).getD ∅ = disk.documentAt document := by
  cases hread : disk.read document with
  | ok content => rw [documentAt_of_read hread, readCacheDocument_of_read hread]
  | error fault =>
      have hempty : (disk.readCacheDocument document).getD ∅ = ∅ := by
        rw [Disk.readCacheDocument, readText, hread]
        dsimp only
        split_ifs <;> rfl
      have hnone : ∀ content, disk.entry? (disk.spotOf document) ≠ some (.file content) := by
        intro content hfile
        rcases writeChanged_cases disk document text with ⟨-, hheld⟩ | ⟨-, hsame⟩
        · rw [hheld hwritten] at hread
          cases hread
        · obtain ⟨spot, hspot⟩ := h.locate_of_write (hsame.symm.trans hwritten)
          rw [← locate_eq_spotOf hspot] at hfile
          rw [read_eq_ok_iff.2 ⟨spot, hspot, hfile⟩] at hread
          cases hread
      rw [hempty, documentAt]
      split
      · next content hfile => exact absurd hfile (hnone content)
      · rfl

/-- What was written of some entries is read as them. -/
theorem readCacheDocument_of_rendered {entries : CacheMap}
    (hread : disk.read document = .ok (Utf8.encode (CacheDocument.render entries).toList)) :
    disk.readCacheDocument document = some entries := by
  rw [readCacheDocument_of_read hread, cacheOfBytes?, Utf8.decode?_encode, Option.bind_some,
    String.ofList_toList, CacheDocument.parse_render]
  rfl

end Disk

namespace Cache

variable {cache : Cache} {disk : Disk} {document : Path} {mine theirs : CacheMap}
  {key : ComponentKey} {entry : CacheEntry}

/-! ### Merging -/

/-- What is known already is not learned again. -/
theorem merge_self (entries : CacheMap) : merge entries entries = entries := by
  ext key entry
  rw [getElem?_merge_eq]
  cases hfound : entries[key]? with
  | none => rfl
  | some found =>
      have hsame : mergeEntry (some found) found = found := by
        unfold mergeEntry
        dsimp only [Option.getD_some]
        exact ite_self found
      dsimp only
      rw [hsame]

/-- A success of the document comes in with its entry where none is known. -/
theorem getElem?_merge_of_not_succeeds (htheirs : theirs[key]? = some entry)
    (hsuccess : entry.success = true) (hmine : ¬Succeeds key mine) :
    (merge mine theirs)[key]? = some entry := by
  have hunknown : (mine[key]?.getD .unknown).success = false := by
    cases hfound : mine[key]? with
    | none => rfl
    | some found => exact Bool.eq_false_iff.2 fun hknown => hmine ⟨found, hfound, hknown⟩
  rw [getElem?_merge_eq, htheirs]
  simp [mergeEntry, hsuccess, hunknown]

/-! ### Flushing -/

/-- What a flush does that goes well. -/
theorem flush_ok (hdocument : cache.document = some document)
    (hflushed : (cache.flush disk).outcome = .ok ()) :
    (cache.flush disk).cache =
        { cache with entries := merge cache.entries (disk.documentAt document) } ∧
      (cache.flush disk).disk.IsLocked document ∧
      (cache.flush disk).disk.read document = .ok (Utf8.encode
        (CacheDocument.render (cache.flush disk).cache.entries).toList) := by
  have hlocked : (disk.lock document).2.isOk = true →
      (disk.lock document).1.IsLocked document := Disk.isLocked_lock
  have hspares := disk.spares_lock document
  revert hflushed
  unfold flush
  rw [hdocument]
  dsimp only
  generalize disk.lock document = locked at hlocked hspares ⊢
  obtain ⟨ready, failure | ok⟩ := locked
  · nofun
  · dsimp only at hlocked hspares ⊢
    intro hflushed
    have hwritten : (ready.writeChanged document (CacheDocument.render
        (merge cache.entries ((ready.readCacheDocument document).getD ∅)))).2.isOk = true := by
      split at hflushed
      · next hwritten => rw [hwritten]; rfl
      · cases hflushed
    have hready : ready.IsLocked document := hlocked rfl
    have htheirs := (hready.readCacheDocument hwritten).trans hspares.documentAt
    exact ⟨by rw [htheirs], hready.writeChanged _, Disk.read_of_writeChanged hwritten⟩

/-- A cache that is what its document is has nothing to write. -/
theorem writeChanged_of_read {text : String}
    (hread : disk.read document = .ok (Utf8.encode text.toList)) :
    disk.writeChanged document text = (disk, .ok false) := by
  unfold Disk.writeChanged
  dsimp only
  rw [hread]
  exact if_pos rfl

theorem flush_of_read (hdocument : cache.document = some document) (hlocked : disk.IsLocked document)
    (hread : disk.read document =
      .ok (Utf8.encode (CacheDocument.render cache.entries).toList)) :
    cache.flush disk = { disk, cache, warnings := [], outcome := .ok () } := by
  have hfound := Disk.readCacheDocument_of_rendered hread
  obtain ⟨entries, place⟩ := cache
  obtain rfl : place = some document := hdocument
  unfold flush
  dsimp only
  rw [hlocked.lock]
  dsimp only
  rw [hfound, Option.getD_some, merge_self, writeChanged_of_read hread]
  rfl

/--
**Flush, then load.** When a cache is flushed to its document and that goes well, the cache, what is read
from the document and what is loaded from it are one map. It has the keys of the cache and of the
document that was there, and a component is a success in it if it was one in either; a success keeps the
entry of the cache, or else has that of the document. Flushing again writes nothing and changes nothing,
neither the cache nor anything on the disk.
-/
theorem flush_then_load (hdocument : cache.document = some document)
    (hflushed : (cache.flush disk).outcome = .ok ()) :
    let theirs := disk.documentAt document
    let flushed := cache.flush disk
    (∀ content, disk.read document = .ok content →
      theirs = (disk.readCacheDocument document).getD ∅) ∧
    (flushed.disk.readCacheDocument document = some flushed.cache.entries ∧
      load flushed.disk document = (flushed.cache, []) ∧
      flushed.cache.document = some document) ∧
    (∀ key, key ∈ flushed.cache.entries ↔ key ∈ cache.entries ∨ key ∈ theirs) ∧
    (∀ key, Succeeds key flushed.cache.entries ↔ Succeeds key cache.entries ∨ Succeeds key theirs) ∧
    (∀ key entry, entry.success = true →
      (cache.entries[key]? = some entry → flushed.cache.entries[key]? = some entry) ∧
      (¬Succeeds key cache.entries → theirs[key]? = some entry →
        flushed.cache.entries[key]? = some entry)) ∧
    flushed.disk.writeChanged document (CacheDocument.render flushed.cache.entries) =
      (flushed.disk, .ok false) ∧
    flushed.cache.flush flushed.disk =
      { disk := flushed.disk, cache := flushed.cache, warnings := [], outcome := .ok () } := by
  intro theirs flushed
  obtain ⟨hcache, hlocked, hread⟩ := flush_ok hdocument hflushed
  have hentries : flushed.cache.entries = merge cache.entries theirs := congrArg entries hcache
  have hdocument' : flushed.cache.document = some document :=
    (congrArg Cache.document hcache).trans hdocument
  have hload := load_flush hdocument hflushed
  refine ⟨fun content hcontent => ?_,
    ⟨Disk.readCacheDocument_of_rendered hread, hload, hdocument'⟩, fun key => ?_, fun key => ?_,
    fun key entry hsuccess => ⟨fun hmine => ?_, fun hmine htheirs => ?_⟩,
    writeChanged_of_read hread, flush_of_read hdocument' hlocked hread⟩
  · rw [Disk.readCacheDocument_of_read hcontent]
    exact Disk.documentAt_of_read hcontent
  · rw [hentries]
    exact (joins_has key).merge cache.entries theirs
  · rw [hentries]
    exact (joins_succeeds key).merge cache.entries theirs
  · rw [hentries]
    exact getElem?_merge hmine hsuccess
  · rw [hentries]
    exact getElem?_merge_of_not_succeeds htheirs hsuccess hmine

/-- A disk with a document that knows of a success. -/
def writtenDisk : Disk :=
  Disk.empty.put ["c"] (.file (Utf8.encode
    "\x7b\"ui\":\x7b\"A\":\x7b\"success\":true\x7d\x7d\x7d".toList))

/-- A cache that has only met the component. -/
def unknowingCache : Cache :=
  Cache.ensure { entries := ∅, document := some ⟨"/c"⟩ } ⟨"ui", "A"⟩

/-- The cache learns of the success, and then it is what the document is. -/
theorem flush_then_load_of_success :
    unknowingCache.document = some ⟨"/c"⟩ ∧
      (unknowingCache.flush writtenDisk).outcome = .ok () ∧
      (unknowingCache.flush writtenDisk).cache.get? ⟨"ui", "A"⟩ = some ⟨true, []⟩ ∧
      load (unknowingCache.flush writtenDisk).disk ⟨"/c"⟩ =
        ((unknowingCache.flush writtenDisk).cache, []) ∧
      (unknowingCache.flush writtenDisk).cache.flush (unknowingCache.flush writtenDisk).disk =
        { disk := (unknowingCache.flush writtenDisk).disk
          cache := (unknowingCache.flush writtenDisk).cache, warnings := [], outcome := .ok () } := by
  have hflushed : (unknowingCache.flush writtenDisk).outcome = .ok () := by decide +kernel
  have htheirs : (writtenDisk.documentAt ⟨"/c"⟩)[(⟨"ui", "A"⟩ : ComponentKey)]? =
      some ⟨true, []⟩ := by
    decide +kernel
  have hmine : ¬Succeeds ⟨"ui", "A"⟩ unknowingCache.entries := by
    rintro ⟨entry, hentry, hsuccess⟩
    obtain rfl := Option.some.inj hentry
    cases hsuccess
  obtain ⟨-, ⟨-, hload, -⟩, -, -, hsuccesses, -, hagain⟩ := flush_then_load rfl hflushed
  exact ⟨rfl, hflushed, (hsuccesses _ _ rfl).2 hmine htheirs, hload, hagain⟩

end Cache

end ComponentTags
