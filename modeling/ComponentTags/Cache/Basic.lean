import ComponentTags.Cache.Document
import ComponentTags.Disk.Replacing

/-!
The cache. It is read from its document once and written back on a flush, which first takes over what
others wrote to the document in the meantime: no key is lost, and no success.
-/

namespace ComponentTags

/-- The entries of a cache and the document that they are kept in, if there is one. -/
structure Cache where
  entries : CacheMap
  document : Option Path

def lockPath (document : Path) : Path :=
  document.withFileName (document.fileName?.getD "cache" ++ ".lock")

/-- Reads a document: a missing one has no entries, and nothing stands for one that is unreadable. -/
def Disk.readCacheDocument (disk : Disk) (document : Path) : Option CacheMap :=
  match disk.readText document with
  | .ok text => (CacheDocument.parse text).toOption
  | .error fault => if fault.kind = .missing then some ∅ else none

def Disk.lock (disk : Disk) (document : Path) : Disk × Except Failure Unit :=
  let path := lockPath document
  let (disk, made) : Disk × Except Failure Unit :=
    match path.parent? with
    | none => (disk, .ok ())
    | some parent =>
        match disk.createAll parent with
        | (disk, .ok ()) => (disk, .ok ())
        | (disk, .error source) =>
            (disk, .error (.of (.file
              { operation := .creatingDirectory, path := parent
                purpose := "creating the cache directory", caller := "cache lock", source })))
  match made with
  | .error failure => (disk, .error failure)
  | .ok () =>
      match disk.createFile path with
      | .ok (disk, _) => (disk, .ok ())
      | .error source =>
          (disk, .error (.of (.file
            { operation := .locking, path, purpose := "opening the cache lock file"
              caller := "cache lock", source })))

structure Flush where
  disk : Disk
  cache : Cache
  warnings : List Warning
  outcome : Except Failure Unit

namespace Cache

def inMemory : Cache :=
  { entries := ∅, document := none }

/-- The cache of a document, and the warning that the document cannot be read. -/
def load (disk : Disk) (document : Path) : Cache × List Warning :=
  match disk.readCacheDocument document with
  | some entries => ({ entries, document := some document }, [])
  | none => ({ entries := ∅, document := some document }, [.documentIgnored])

def get? (cache : Cache) (key : ComponentKey) : Option CacheEntry :=
  cache.entries[key]?

def ensure (cache : Cache) (key : ComponentKey) : Cache :=
  { cache with entries := cache.entries.insertIfNew key .unknown }

def recordSuccess (cache : Cache) (key : ComponentKey) (deps : List Dependency) : Cache :=
  { cache with entries := cache.entries.insert key { success := true, deps } }

/-- What an entry becomes that meets one from the document; only a success of that one counts. -/
def mergeEntry (mine : Option CacheEntry) (theirs : CacheEntry) : CacheEntry :=
  let mine := mine.getD .unknown
  if theirs.success && !mine.success then theirs else mine

def merge (mine theirs : CacheMap) : CacheMap :=
  theirs.foldl (fun entries key entry => entries.insert key (mergeEntry entries[key]? entry)) mine

/-- Writes the cache to its document, after it took over what the document holds. -/
def flush (cache : Cache) (disk : Disk) : Flush :=
  match cache.document with
  | none => { disk, cache, warnings := [], outcome := .ok () }
  | some document =>
      match disk.lock document with
      | (disk, .error failure) => { disk, cache, warnings := [], outcome := .error failure }
      | (disk, .ok ()) =>
          let found := disk.readCacheDocument document
          let entries := merge cache.entries (found.getD ∅)
          let (disk, written) := disk.writeChanged document (CacheDocument.render entries)
          { disk
            cache := { cache with entries }
            warnings := if found.isNone then [.documentOverwritten] else []
            outcome :=
              match written with
              | .ok _ => .ok ()
              | .error failure => .error (.of (.fault (.cacheDocument document failure.inline))) }

end Cache

end ComponentTags
