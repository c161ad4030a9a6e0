import ComponentTags.Proofs.Cache.Merging
import ComponentTags.Proofs.Cache.Reloading
import ComponentTags.Proofs.Disk.Siblings

/-!
Caches that share a document. Several caches are loaded from one document at any time, change on their
own and are flushed to it in any order. No flush loses a key or a success that the document had, and the
order of the flushes does not matter.
-/

namespace ComponentTags

/-! ### What a document says -/

namespace Disk

variable {disk other : Disk} {document : Path} {content : List UInt8} {found : CacheMap}

/-- What some bytes say that are read as a cache document. -/
def cacheOfBytes? (content : List UInt8) : Option CacheMap :=
  (Utf8.decode? content).bind fun text => (CacheDocument.parse (String.ofList text)).toOption

/-- What the file says that stands at the place of a document. The path may not lead there: it reads as
missing when it goes through a directory that is missing and back by a `..`. -/
def documentAt (disk : Disk) (document : Path) : CacheMap :=
  match disk.entry? (disk.spotOf document) with
  | some (.file content) => (cacheOfBytes? content).getD ∅
  | _ => ∅

/-- What a flush takes over from the document. -/
def lockedDocument (disk : Disk) (document : Path) : CacheMap :=
  ((disk.lock document).1.readCacheDocument document).getD ∅

theorem readCacheDocument_of_read (h : disk.read document = .ok content) :
    disk.readCacheDocument document = cacheOfBytes? content := by
  rw [readCacheDocument, readText, h, cacheOfBytes?]
  dsimp only
  cases Utf8.decode? content <;> rfl

theorem documentAt_of_read (h : disk.read document = .ok content) :
    disk.documentAt document = (cacheOfBytes? content).getD ∅ := by
  obtain ⟨spot, hspot, hentry⟩ := read_eq_ok_iff.1 h
  rw [documentAt, ← locate_eq_spotOf hspot, hentry]

theorem readCacheDocument_cases (h : disk.readCacheDocument document = some found) :
    found = ∅ ∨ ∃ content, disk.read document = .ok content := by
  cases hread : disk.read document with
  | ok content => exact .inr ⟨content, rfl⟩
  | error fault =>
      rw [readCacheDocument, readText, hread] at h
      dsimp only at h
      split at h
      · exact .inl (Option.some.inj h).symm
      · cases h

theorem lockedDocument_of_read (h : disk.read document = .ok content) :
    disk.lockedDocument document = (cacheOfBytes? content).getD ∅ := by
  rw [lockedDocument, readCacheDocument_of_read ((disk.spares_lock document).read h)]

theorem Spares.documentAt (h : Spares (disk.spotOf document) disk other) :
    other.documentAt document = disk.documentAt document := by
  have hsame := h.file_iff
  rw [Disk.documentAt, Disk.documentAt, spotOf_congr h.workingDirectory]
  cases hentry : disk.entry? (disk.spotOf document) with
  | none =>
      split
      · next hfile => simp [(hsame _).1 hfile] at hentry
      · rfl
  | some entry =>
      cases entry with
      | file content => rw [(hsame content).2 hentry]
      | directory =>
          split
          · next hfile => simp [(hsame _).1 hfile] at hentry
          · rfl

/-- Whatever is read from the document, before or after it is locked, stands at its place. -/
theorem read_or_empty (h : Spares (disk.spotOf document) disk other) :
    (other.readCacheDocument document).getD ∅ = ∅ ∨
      (other.readCacheDocument document).getD ∅ = disk.documentAt document := by
  cases hfound : other.readCacheDocument document with
  | none => exact .inl rfl
  | some found =>
      rcases readCacheDocument_cases hfound with rfl | ⟨content, hread⟩
      · exact .inl rfl
      · rw [← h.documentAt, documentAt_of_read hread, ← readCacheDocument_of_read hread, hfound]
        exact .inr rfl

end Disk

/-! ### One flush -/

namespace Cache

variable {cache : Cache} {disk : Disk} {document : Path}

theorem flush_of_isOk (hdocument : cache.document = some document)
    (hflushed : (cache.flush disk).outcome.isOk = true) :
    (cache.flush disk).cache =
        { cache with entries := merge cache.entries (disk.lockedDocument document) } ∧
      ∃ content, (cache.flush disk).disk.read document = .ok content ∧
        Disk.cacheOfBytes? content =
          some (merge cache.entries (disk.lockedDocument document)) := by
  revert hflushed
  unfold flush Disk.lockedDocument
  rw [hdocument]
  dsimp only
  generalize disk.lock document = locked
  obtain ⟨ready, failure | ok⟩ := locked
  · nofun
  · dsimp only
    intro hflushed
    have hwritten : (ready.writeChanged document (CacheDocument.render
        (merge cache.entries ((ready.readCacheDocument document).getD ∅)))).2.isOk = true := by
      split at hflushed
      · next hwritten => rw [hwritten]; rfl
      · cases hflushed
    refine ⟨rfl, _, Disk.read_of_writeChanged hwritten, ?_⟩
    rw [Disk.cacheOfBytes?, Utf8.decode?_encode, Option.bind_some, String.ofList_toList,
      CacheDocument.parse_render]
    rfl

theorem flush_of_refused (hdocument : cache.document = some document)
    (hrefused : (cache.flush disk).outcome.isOk = false) :
    Disk.Spares (disk.spotOf document) disk (cache.flush disk).disk ∧
      ((cache.flush disk).cache = cache ∨ (cache.flush disk).cache =
        { cache with entries := merge cache.entries (disk.lockedDocument document) }) := by
  have hlock := disk.spares_lock document
  revert hrefused
  unfold flush Disk.lockedDocument
  rw [hdocument]
  dsimp only
  generalize disk.lock document = locked at hlock ⊢
  obtain ⟨ready, failure | ok⟩ := locked
  · exact fun _ => ⟨hlock, .inl rfl⟩
  · dsimp only at hlock ⊢
    intro hrefused
    refine ⟨hlock.trans ?_, .inr rfl⟩
    rw [← Disk.spotOf_congr hlock.workingDirectory]
    refine Disk.spares_writeChanged ?_
    split at hrefused
    · cases hrefused
    · next hwritten => rw [hwritten]; rfl

end Cache

/-! ### Histories -/

/-- Some caches, and the disk with the document that they share. -/
structure Sharing where
  handles : List Cache
  disk : Disk

/-- What is done with the caches; each is called by its number. -/
inductive Use where
  | load
  | ensure (handle : Nat) (key : ComponentKey)
  | record (handle : Nat) (key : ComponentKey) (deps : List Dependency)
  | flush (handle : Nat)

namespace Sharing

def start (disk : Disk) : Sharing :=
  { handles := [], disk }

def flush (sharing : Sharing) (handle : Nat) : Sharing :=
  match sharing.handles[handle]? with
  | none => sharing
  | some cache =>
      { handles := sharing.handles.set handle (cache.flush sharing.disk).cache
        disk := (cache.flush sharing.disk).disk }

def apply (document : Path) (sharing : Sharing) : Use → Sharing
  | .load => { sharing with handles := sharing.handles ++ [(Cache.load sharing.disk document).1] }
  | .ensure handle key => { sharing with handles := sharing.handles.modify handle (·.ensure key) }
  | .record handle key deps =>
      { sharing with handles := sharing.handles.modify handle (·.recordSuccess key deps) }
  | .flush handle => sharing.flush handle

def run (document : Path) (sharing : Sharing) (uses : List Use) : Sharing :=
  uses.foldl (apply document) sharing

/-- The document can be read and says so. -/
def Tells (document : Path) (sharing : Sharing) (P : CacheMap → Prop) : Prop :=
  ∃ found, sharing.disk.readCacheDocument document = some found ∧ P found

/-- One cache after another is flushed, and each flush goes well. -/
def allFlush (sharing : Sharing) : List Nat → Bool
  | [] => true
  | handle :: rest =>
      (sharing.handles[handle]?.any fun cache => (cache.flush sharing.disk).outcome.isOk) &&
        (sharing.flush handle).allFlush rest

/-- Every cache is one of the document. -/
def IsShared (document : Path) (sharing : Sharing) : Prop :=
  ∀ cache ∈ sharing.handles, cache.document = some document

variable {sharing : Sharing} {document : Path} {P : CacheMap → Prop} {handle : Nat} {cache : Cache}

theorem flush_of_getElem? (h : sharing.handles[handle]? = some cache) :
    sharing.flush handle =
      { handles := sharing.handles.set handle (cache.flush sharing.disk).cache
        disk := (cache.flush sharing.disk).disk } := by
  rw [flush, h]

theorem flush_of_none (h : sharing.handles[handle]? = none) : sharing.flush handle = sharing := by
  rw [flush, h]

theorem document_flush (cache : Cache) (disk : Disk) :
    (cache.flush disk).cache.document = cache.document := by
  unfold Cache.flush
  split
  · rfl
  · split <;> rfl

theorem mem_modify {handles : List Cache} {change : Cache → Cache}
    (h : cache ∈ handles.modify handle change) :
    cache ∈ handles ∨ handle < handles.length ∧ ∃ old ∈ handles, cache = change old := by
  obtain ⟨i, hi⟩ := List.mem_iff_getElem?.1 h
  rw [List.getElem?_modify] at hi
  obtain ⟨old, hold, rfl⟩ := Option.map_eq_some_iff.1 hi
  have hmem := List.mem_of_getElem? hold
  split
  · next heq =>
      obtain ⟨hlength, -⟩ := List.getElem?_eq_some_iff.1 hold
      exact .inr ⟨heq ▸ hlength, old, hmem, rfl⟩
  · exact .inl hmem

/-- A use changes each cache on its own, adds one, or flushes one. -/
theorem mem_handles_apply {use : Use} (h : cache ∈ (sharing.apply document use).handles) :
    cache ∈ sharing.handles ∨
      cache = (Cache.load sharing.disk document).1 ∨
      (∃ old ∈ sharing.handles, ∃ key, cache = old.ensure key) ∨
      (∃ old ∈ sharing.handles, ∃ handle key deps, use = .record handle key deps ∧
        handle < sharing.handles.length ∧ cache = old.recordSuccess key deps) ∨
      ∃ old ∈ sharing.handles, cache = (old.flush sharing.disk).cache := by
  cases use with
  | load =>
      rcases List.mem_append.1 h with hmem | hmem
      · exact .inl hmem
      · exact .inr (.inl (List.mem_singleton.1 hmem))
  | ensure handle key =>
      rcases mem_modify h with hmem | ⟨-, old, hold, rfl⟩
      · exact .inl hmem
      · exact .inr (.inr (.inl ⟨old, hold, key, rfl⟩))
  | record handle key deps =>
      rcases mem_modify h with hmem | ⟨hhandle, old, hold, rfl⟩
      · exact .inl hmem
      · exact .inr (.inr (.inr (.inl ⟨old, hold, handle, key, deps, rfl, hhandle, rfl⟩)))
  | flush handle =>
      change cache ∈ (sharing.flush handle).handles at h
      cases hold : sharing.handles[handle]? with
      | none =>
          rw [flush_of_none hold] at h
          exact .inl h
      | some old =>
          rw [flush_of_getElem? hold] at h
          rcases List.mem_or_eq_of_mem_set h with hmem | rfl
          · exact .inl hmem
          · exact .inr (.inr (.inr (.inr ⟨old, List.mem_of_getElem? hold, rfl⟩)))

theorem IsShared.apply (h : sharing.IsShared document) (use : Use) :
    (sharing.apply document use).IsShared document := by
  intro cache hcache
  rcases mem_handles_apply hcache with hmem | rfl | ⟨old, hold, key, rfl⟩ |
    ⟨old, hold, _, key, deps, -, -, rfl⟩ | ⟨old, hold, rfl⟩
  · exact h cache hmem
  · rw [Cache.load]
    split <;> rfl
  · exact h old hold
  · exact h old hold
  · rw [document_flush]
    exact h old hold

theorem IsShared.run (h : sharing.IsShared document) (uses : List Use) :
    (sharing.run document uses).IsShared document := by
  induction uses generalizing sharing with
  | nil => exact h
  | cons use uses ih => exact ih (h.apply use)

/-- After a flush that went well the document is what the cache and it were merged to. -/
theorem flushed (hshared : sharing.IsShared document)
    (hcache : sharing.handles[handle]? = some cache)
    (hflushed : (cache.flush sharing.disk).outcome.isOk = true) :
    (sharing.flush handle).handles = sharing.handles.set handle { cache with
        entries := Cache.merge cache.entries (sharing.disk.lockedDocument document) } ∧
      (sharing.flush handle).disk.readCacheDocument document =
        some (Cache.merge cache.entries (sharing.disk.lockedDocument document)) ∧
      (sharing.flush handle).disk.lockedDocument document =
        Cache.merge cache.entries (sharing.disk.lockedDocument document) := by
  obtain ⟨hentries, content, hread, hcontent⟩ :=
    Cache.flush_of_isOk (hshared cache (List.mem_of_getElem? hcache)) hflushed
  rw [flush_of_getElem? hcache, Disk.readCacheDocument_of_read hread,
    Disk.lockedDocument_of_read hread, hcontent, hentries]
  exact ⟨rfl, rfl, rfl⟩

/-- What the document tells is still there when it is locked. -/
theorem Tells.locked (h : sharing.Tells document P) (hP : Joins P) :
    P (sharing.disk.lockedDocument document) ∧
      ∃ content, sharing.disk.read document = .ok content := by
  obtain ⟨found, hfound, htells⟩ := h
  rcases Disk.readCacheDocument_cases hfound with rfl | ⟨content, hread⟩
  · exact absurd htells hP.empty
  · rw [Disk.lockedDocument_of_read hread, ← Disk.readCacheDocument_of_read hread, hfound]
    exact ⟨htells, content, hread⟩

theorem Tells.flush (h : sharing.Tells document P) (hP : Joins P)
    (hshared : sharing.IsShared document) (handle : Nat) :
    (sharing.flush handle).Tells document P := by
  cases hcache : sharing.handles[handle]? with
  | none => rwa [flush_of_none hcache]
  | some cache =>
      obtain ⟨hlocked, content, hread⟩ := h.locked hP
      cases hflushed : (cache.flush sharing.disk).outcome.isOk with
      | true =>
          obtain ⟨-, hfound, -⟩ := flushed hshared hcache hflushed
          exact ⟨_, hfound, (hP.merge _ _).2 (.inr hlocked)⟩
      | false =>
          have hdocument := hshared cache (List.mem_of_getElem? hcache)
          have hkept := (Cache.flush_of_refused hdocument hflushed).1.read hread
          obtain ⟨found, hfound, htells⟩ := h
          rw [Disk.readCacheDocument_of_read hread] at hfound
          rw [flush_of_getElem? hcache]
          exact ⟨found, by rw [Disk.readCacheDocument_of_read hkept, hfound], htells⟩

/-- What the document tells once it tells from then on. -/
theorem Tells.run (h : sharing.Tells document P) (hP : Joins P)
    (hshared : sharing.IsShared document) (uses : List Use) :
    (sharing.run document uses).Tells document P := by
  induction uses generalizing sharing with
  | nil => exact h
  | cons use uses ih =>
      refine ih ?_ (hshared.apply use)
      cases use with
      | load | ensure | record => exact h
      | flush handle => exact h.flush hP hshared handle

theorem tells_flush (hP : Joins P) (hshared : sharing.IsShared document)
    (hcache : sharing.handles[handle]? = some cache)
    (hflushed : (cache.flush sharing.disk).outcome.isOk = true)
    (h : P cache.entries ∨ sharing.Tells document P) :
    (sharing.flush handle).Tells document P := by
  obtain ⟨-, hfound, -⟩ := flushed hshared hcache hflushed
  exact ⟨_, hfound, (hP.merge _ _).2 (h.imp_right fun htells => (htells.locked hP).1)⟩

/-! ### Orders of flushes -/

theorem exists_of_allFlush {rest : List Nat} (h : sharing.allFlush (handle :: rest) = true) :
    ∃ cache, sharing.handles[handle]? = some cache ∧
      (cache.flush sharing.disk).outcome.isOk = true ∧
      (sharing.flush handle).allFlush rest = true := by
  rw [allFlush, Bool.and_eq_true, Option.any_eq_true] at h
  obtain ⟨⟨cache, hcache, hflushed⟩, hrest⟩ := h
  exact ⟨cache, hcache, hflushed, hrest⟩

/-- A flush passes on what its cache knew, to the document and to the cache itself. -/
theorem known_after_flush_iff (hP : Joins P) (hcache : sharing.handles[handle]? = some cache)
    {locked : CacheMap} (rest : List Nat) :
    (P (Cache.merge cache.entries locked) ∨ ∃ other ∈ rest, ∃ found,
        (sharing.handles.set handle
          { cache with entries := Cache.merge cache.entries locked })[other]? = some found ∧
        P found.entries) ↔
      P locked ∨ ∃ other ∈ handle :: rest, ∃ found,
        sharing.handles[other]? = some found ∧ P found.entries := by
  obtain ⟨hlength, -⟩ := List.getElem?_eq_some_iff.1 hcache
  rw [hP.merge]
  constructor
  · rintro ((hmine | hlocked) | ⟨other, hother, found, hfound, hknown⟩)
    · exact .inr ⟨handle, List.mem_cons_self, cache, hcache, hmine⟩
    · exact .inl hlocked
    · rw [List.getElem?_set] at hfound
      split at hfound
      · obtain rfl := by simpa [hlength] using hfound
        rcases (hP.merge _ _).1 hknown with hmine | hlocked
        · exact .inr ⟨handle, List.mem_cons_self, cache, hcache, hmine⟩
        · exact .inl hlocked
      · exact .inr ⟨other, List.mem_cons_of_mem _ hother, found, hfound, hknown⟩
  · rintro (hlocked | ⟨other, hother, found, hfound, hknown⟩)
    · exact .inl (.inr hlocked)
    · by_cases heq : handle = other
      · subst heq
        obtain rfl := Option.some.inj (hcache.symm.trans hfound)
        exact .inl (.inl hknown)
      · have hmem : other ∈ rest := (List.mem_cons.1 hother).resolve_left (Ne.symm heq)
        exact .inr ⟨other, hmem, found, by rw [List.getElem?_set_ne heq, hfound], hknown⟩

/-- After some flushes the document tells what one of the caches knew or what it told before. -/
theorem tells_run_flush_iff (hP : Joins P) (hshared : sharing.IsShared document)
    {order : List Nat} (hne : order ≠ []) (hflushes : sharing.allFlush order = true) :
    (sharing.run document (order.map .flush)).Tells document P ↔
      P (sharing.disk.lockedDocument document) ∨
        ∃ handle ∈ order, ∃ cache, sharing.handles[handle]? = some cache ∧ P cache.entries := by
  induction order generalizing sharing with
  | nil => exact absurd rfl hne
  | cons handle rest ih =>
      obtain ⟨cache, hcache, hflushed, hrest⟩ := exists_of_allFlush hflushes
      obtain ⟨hhandles, hfound, hlocked⟩ := flushed hshared hcache hflushed
      rw [← known_after_flush_iff hP hcache]
      by_cases hlast : rest = []
      · subst hlast
        calc (sharing.flush handle).Tells document P
            ↔ P (Cache.merge cache.entries (sharing.disk.lockedDocument document)) :=
              ⟨fun ⟨found, hfound', htells⟩ => Option.some.inj (hfound'.symm.trans hfound) ▸ htells,
                fun htells => ⟨_, hfound, htells⟩⟩
          _ ↔ _ := by simp
      · rw [← hhandles, ← hlocked]
        exact ih (hshared.apply (.flush handle)) hlast hrest

/-- The order of flushes does not matter, nor how often a cache is flushed. -/
theorem tells_of_orders (hP : Joins P) (hshared : sharing.IsShared document)
    {order order' : List Nat} (hsame : ∀ handle, handle ∈ order ↔ handle ∈ order')
    (hflushes : sharing.allFlush order = true) (hflushes' : sharing.allFlush order' = true) :
    (sharing.run document (order.map .flush)).Tells document P ↔
      (sharing.run document (order'.map .flush)).Tells document P := by
  by_cases hne : order = []
  · subst hne
    obtain rfl : order' = [] := List.eq_nil_iff_forall_not_mem.2 fun handle hmem =>
      absurd ((hsame handle).2 hmem) List.not_mem_nil
    rfl
  · have hne' : order' ≠ [] := by
      rintro rfl
      exact hne (List.eq_nil_iff_forall_not_mem.2 fun handle hmem =>
        absurd ((hsame handle).1 hmem) List.not_mem_nil)
    rw [tells_run_flush_iff hP hshared hne hflushes, tells_run_flush_iff hP hshared hne' hflushes']
    simp only [hsame]

/-! ### Where the deps come from -/

/-- The deps were given with a success of the component, by the document that was there at first or by
one of the uses. -/
def Gave (disk : Disk) (document : Path) (uses : List Use) (key : ComponentKey)
    (deps : List Dependency) : Prop :=
  (∃ entry, (disk.documentAt document)[key]? = some entry ∧ entry.success = true ∧
      entry.deps = deps) ∨
    ∃ before handle after, uses = before ++ .record handle key deps :: after ∧
      handle < ((start disk).run document before).handles.length

/-- The deps of every success, in the document and in each cache, were given. -/
structure Honest (given : ComponentKey → List Dependency → Prop) (document : Path)
    (sharing : Sharing) : Prop where
  document : Vouched given (sharing.disk.documentAt document)
  handles : ∀ cache ∈ sharing.handles, Vouched given cache.entries

variable {given : ComponentKey → List Dependency → Prop} {uses : List Use} {disk : Disk}

theorem Honest.read (h : sharing.Honest given document) {other : Disk}
    (hspares : Disk.Spares (sharing.disk.spotOf document) sharing.disk other) :
    Vouched given ((other.readCacheDocument document).getD ∅) := by
  rcases Disk.read_or_empty hspares with hempty | hsame
  · rw [hempty]
    exact .empty
  · rw [hsame]
    exact h.document

theorem Honest.flush (h : sharing.Honest given document) (hshared : sharing.IsShared document)
    (hcache : cache ∈ sharing.handles) :
    Vouched given ((cache.flush sharing.disk).disk.documentAt document) ∧
      Vouched given (cache.flush sharing.disk).cache.entries := by
  have hmerged : Vouched given
      (Cache.merge cache.entries (sharing.disk.lockedDocument document)) :=
    (h.handles cache hcache).merge (h.read (sharing.disk.spares_lock document))
  cases hflushed : (cache.flush sharing.disk).outcome.isOk with
  | true =>
      obtain ⟨hentries, content, hread, hcontent⟩ :=
        Cache.flush_of_isOk (hshared cache hcache) hflushed
      rw [Disk.documentAt_of_read hread, hcontent, hentries]
      exact ⟨hmerged, hmerged⟩
  | false =>
      obtain ⟨hspares, hentries⟩ := Cache.flush_of_refused (hshared cache hcache) hflushed
      rw [hspares.documentAt]
      refine ⟨h.document, ?_⟩
      rcases hentries with heq | heq <;> rw [heq]
      · exact h.handles cache hcache
      · exact hmerged

theorem Honest.apply (h : sharing.Honest given document) (hshared : sharing.IsShared document)
    (use : Use) (hgiven : ∀ handle key deps, use = .record handle key deps →
      handle < sharing.handles.length → given key deps) :
    (sharing.apply document use).Honest given document where
  document := by
    cases use with
    | load | ensure | record => exact h.document
    | flush handle =>
        change Vouched given ((sharing.flush handle).disk.documentAt document)
        cases hcache : sharing.handles[handle]? with
        | none =>
            rw [flush_of_none hcache]
            exact h.document
        | some cache =>
            rw [flush_of_getElem? hcache]
            exact (h.flush hshared (List.mem_of_getElem? hcache)).1
  handles cache hcache := by
    rcases mem_handles_apply hcache with hmem | rfl | ⟨old, hold, key, rfl⟩ |
      ⟨old, hold, handle, key, deps, huse, hhandle, rfl⟩ | ⟨old, hold, rfl⟩
    · exact h.handles cache hmem
    · have hread := h.read (.refl _ sharing.disk)
      rw [Cache.load]
      cases hfound : sharing.disk.readCacheDocument document with
      | none => exact .empty
      | some found =>
          rw [hfound] at hread
          exact hread
    · exact (h.handles old hold).insertIfNew
    · exact (h.handles old hold).insert (hgiven handle key deps huse hhandle)
    · exact (h.flush hshared hold).2

theorem Gave.append {key : ComponentKey} {deps : List Dependency}
    (h : Gave disk document uses key deps) (more : List Use) :
    Gave disk document (uses ++ more) key deps := by
  rcases h with hfirst | ⟨before, handle, after, rfl, hhandle⟩
  · exact .inl hfirst
  · exact .inr ⟨before, handle, after ++ more, by simp, hhandle⟩

theorem isShared_start (disk : Disk) (document : Path) : (start disk).IsShared document :=
  nofun

theorem honest_run (disk : Disk) (document : Path) (uses : List Use) :
    ((start disk).run document uses).Honest (Gave disk document uses) document := by
  induction uses using List.reverseRecOn with
  | nil =>
      exact ⟨fun key entry hentry hsuccess => .inl ⟨entry, hentry, hsuccess, rfl⟩, nofun⟩
  | append_singleton uses use ih =>
      have hmore : ((start disk).run document uses).Honest (Gave disk document (uses ++ [use]))
          document :=
        ⟨ih.document.mono fun _ _ h => h.append _,
          fun cache hcache => (ih.handles cache hcache).mono fun _ _ h => h.append _⟩
      have hstep := hmore.apply ((isShared_start disk document).run uses) use
        fun handle key deps huse hhandle => .inr ⟨uses, handle, [], by rw [huse], hhandle⟩
      rw [run, List.foldl_append]
      exact hstep

/-! ### The sharing of a document -/

/--
**Flushes lose nothing.** Whatever was done with any number of caches of one document: a key that the
document has is in it from then on, and so is a success; right after a flush that went well the document
has all that the cache had and all that it had before, and the cache is what the document is; when
several caches are flushed, the keys and the successes that come out are the same in every order; and
the deps of every success, in the document or in a cache, were given with a success, by the document
that was there at first or by one of the caches.
-/
theorem flushes_lose_nothing (disk : Disk) (document : Path) (uses : List Use) (key : ComponentKey) :
    let sharing := (start disk).run document uses
    (∀ more,
      (sharing.Tells document (Has key) →
        (sharing.run document more).Tells document (Has key)) ∧
      (sharing.Tells document (Succeeds key) →
        (sharing.run document more).Tells document (Succeeds key))) ∧
    (∀ handle cache, sharing.handles[handle]? = some cache →
      (cache.flush sharing.disk).outcome.isOk = true →
      (Has key cache.entries ∨ sharing.Tells document (Has key) →
        (sharing.flush handle).Tells document (Has key)) ∧
      (Succeeds key cache.entries ∨ sharing.Tells document (Succeeds key) →
        (sharing.flush handle).Tells document (Succeeds key)) ∧
      ∃ merged, (sharing.flush handle).handles[handle]? = some merged ∧
        (sharing.flush handle).disk.readCacheDocument document = some merged.entries) ∧
    (∀ order order', (∀ handle, handle ∈ order ↔ handle ∈ order') →
      sharing.allFlush order = true → sharing.allFlush order' = true →
      ((sharing.run document (order.map .flush)).Tells document (Has key) ↔
        (sharing.run document (order'.map .flush)).Tells document (Has key)) ∧
      ((sharing.run document (order.map .flush)).Tells document (Succeeds key) ↔
        (sharing.run document (order'.map .flush)).Tells document (Succeeds key))) ∧
    ∀ found entry,
      (sharing.disk.readCacheDocument document = some found ∨
        ∃ cache ∈ sharing.handles, found = cache.entries) →
      found[key]? = some entry → entry.success = true →
      Gave disk document uses key entry.deps := by
  intro sharing
  have hshared : sharing.IsShared document := (isShared_start disk document).run uses
  have hhonest : sharing.Honest (Gave disk document uses) document := honest_run disk document uses
  have hkeys := Cache.joins_has key
  have hsuccesses := Cache.joins_succeeds key
  refine ⟨fun more => ⟨fun h => h.run hkeys hshared more, fun h => h.run hsuccesses hshared more⟩,
    fun handle cache hcache hflushed => ⟨tells_flush hkeys hshared hcache hflushed,
      tells_flush hsuccesses hshared hcache hflushed, ?_⟩,
    fun order order' hsame hflushes hflushes' =>
      ⟨tells_of_orders hkeys hshared hsame hflushes hflushes',
        tells_of_orders hsuccesses hshared hsame hflushes hflushes'⟩,
    fun found entry hfound hentry hsuccess => ?_⟩
  · obtain ⟨hlength, -⟩ := List.getElem?_eq_some_iff.1 hcache
    obtain ⟨hhandles, hdocument, -⟩ := flushed hshared hcache hflushed
    rw [hhandles, List.getElem?_set_self hlength]
    exact ⟨_, rfl, hdocument⟩
  · rcases hfound with hfound | ⟨cache, hcache, rfl⟩
    · have hread := hhonest.read (.refl _ sharing.disk)
      rw [hfound] at hread
      exact hread key entry hentry hsuccess
    · exact hhonest.handles cache hcache key entry hentry hsuccess

/-- Two builds that share a document: one of them knows of a success. -/
def twoBuilds : Sharing :=
  (start .empty).run ⟨"/c.json"⟩ [.load, .load, .record 0 ⟨"ui", "A"⟩ []]

theorem twoBuilds_allFlush : twoBuilds.allFlush [0, 1] = true ∧ twoBuilds.allFlush [1, 0] = true := by
  decide +kernel

theorem flushes_lose_nothing_of_twoBuilds :
    twoBuilds.allFlush [0, 1] = true ∧ twoBuilds.allFlush [1, 0] = true ∧
      (twoBuilds.run ⟨"/c.json"⟩ [.flush 0]).Tells ⟨"/c.json"⟩ (Succeeds ⟨"ui", "A"⟩) ∧
      ((twoBuilds.run ⟨"/c.json"⟩ [.flush 0, .flush 1]).Tells ⟨"/c.json"⟩ (Succeeds ⟨"ui", "A"⟩) ↔
        (twoBuilds.run ⟨"/c.json"⟩ [.flush 1, .flush 0]).Tells ⟨"/c.json"⟩
          (Succeeds ⟨"ui", "A"⟩)) := by
  obtain ⟨hfirst, hsecond⟩ := twoBuilds_allFlush
  obtain ⟨-, hflush, horders, -⟩ := flushes_lose_nothing .empty ⟨"/c.json"⟩
    [.load, .load, .record 0 ⟨"ui", "A"⟩ []] ⟨"ui", "A"⟩
  obtain ⟨cache, hcache, hflushed, -⟩ := exists_of_allFlush hfirst
  have hknown : Succeeds ⟨"ui", "A"⟩ cache.entries := by
    obtain rfl := Option.some.inj hcache
    exact ⟨⟨true, []⟩, Std.ExtTreeMap.getElem?_insert_self, rfl⟩
  exact ⟨hfirst, hsecond, (hflush 0 cache hcache hflushed).2.1 (.inl hknown),
    (horders [0, 1] [1, 0] (by simp [or_comm]) hfirst hsecond).2⟩

end Sharing

end ComponentTags
