import KDrive.S3.Bucket

/-! Reading an inventory of the adapter to its end, page by page. The cursor of a page is
the key of its last entry, so a caller goes on behind that key. -/
namespace KDrive.S3
open Go Blobstore Interaction Paging Service

/-- A caller that asks for page after page: each comes with the cursor of the next, if there
is one. `none` means that the end is not reached by then. -/
def drain (fetch : String → Api (Except GoError (List β × Option String))) :
    Nat → String → Api (Option (Except GoError (List β)))
  | 0, _ => pure none
  | pages + 1, cursor => do
    match ← fetch cursor with
    | .error err => pure (some (.error err))
    | .ok (found, none) => pure (some (.ok found))
    | .ok (found, some cursor) => do
      let later ← drain fetch pages cursor
      pure (later.map fun result => result.map fun rest => found ++ rest)

namespace Provider
variable (p : Provider)

/-- Until a page is not truncated. -/
def allVersions (key : String) (maxKeys : Int) (pages : Nat) :
    Api (Option (Except GoError (List ObjectMeta))) :=
  drain (fun cursor => do
    match ← p.listObjectVersions key cursor maxKeys with
    | .error err => pure (.error err)
    | .ok page =>
      pure (.ok (page.versions, if page.isTruncated then some page.nextCursor else none)))
    pages ""

/-- Until a cursor is empty, as the purge job does it. -/
def allUploads (keyPrefix : String) (pages : Nat) :
    Api (Option (Except GoError (List MultipartUpload))) :=
  drain (fun cursor => do
    match ← p.listMultipartUploads keyPrefix cursor with
    | .error err => pure (.error err)
    | .ok page =>
      pure (.ok (page.uploads, if page.nextCursor = "" then none else some page.nextCursor)))
    pages ""

end Provider

/-- A listing call, seen from its caller: it fails when the service does, and otherwise
has the next page of these entries. -/
def Fetches (fetch : String → Api (Except GoError (List β × Option String))) (bucket : Bucket)
    (key : ι → String) (entries : List ι) (size : Turn → Nat) (shape : List ι → List β) : Prop :=
  ∀ (s : Service) (cursor : String), s.bucket = bucket →
    (∃ err, s.turn.fault ≠ none ∧ (fetch cursor).run serve s = some (.error err, s.next)) ∨
    (fetch cursor).run serve s = some (.ok
      (shape (page key (size s.turn) (after key (Provider.optional cursor) entries)).entries,
        (page key (size s.turn) (after key (Provider.optional cursor) entries)).next), s.next)

section Draining
variable {fetch : String → Api (Except GoError (List β × Option String))} {key : ι → String}
  {entries : List ι} {size : Turn → Nat} {shape : List ι → List β}

/-- The whole reading fails with one of its calls or follows the markers. -/
theorem drain_spec (fetches : Fetches fetch s.bucket key entries size shape)
    (append : ∀ front rest, shape (front ++ rest) = shape front ++ shape rest)
    (named : ∀ e ∈ entries, key e ≠ "") (pages : Nat) (cursor : String) :
    ∃ result s', (drain fetch pages cursor).run serve s = some (result, s') ∧
      ((∃ err i, (s.turns i).fault ≠ none ∧ result = some (.error err)) ∨
        result = (follow key pages (fun i => size (s.turns i))
          (after key (Provider.optional cursor) entries)).map fun found => .ok (shape found)) := by
  induction pages generalizing s cursor with
  | zero => exact ⟨none, s, rfl, .inr rfl⟩
  | succ pages ih =>
    simp only [drain, follow, run_bind]
    rcases fetches s cursor rfl with ⟨err, fault, ran⟩ | ran
    · rw [ran]
      exact ⟨_, _, rfl, .inl ⟨err, 0, fault, rfl⟩⟩
    · rw [ran]
      generalize current : page key (size s.turn) (after key (Provider.optional cursor) entries) =
        found
      have same : page key (size (s.turns 0)) (after key (Provider.optional cursor) entries) =
        found := current
      rw [same]
      obtain ⟨found, next⟩ := found
      cases next with
      | none => exact ⟨_, _, rfl, .inr rfl⟩
      | some k =>
        have further : (page key (size s.turn) (after key (Provider.optional cursor) entries)).next =
            some k := by rw [current]
        obtain ⟨_, _, last, taken, rfl⟩ := page_next further
        have seen : last ∈ after key (Provider.optional cursor) entries :=
          List.mem_of_mem_take (by rw [taken]; exact List.mem_append_right _ List.mem_cons_self)
        have inside : last ∈ entries ∧ ∀ m, Provider.optional cursor = some m → m < key last := by
          cases marker : Provider.optional cursor with
          | none =>
            rw [marker] at seen
            exact ⟨seen, fun m impossible => by contradiction⟩
          | some m =>
            rw [marker] at seen
            obtain ⟨member, behind⟩ := List.mem_filter.mp seen
            exact ⟨member, fun m same => by cases same; exact of_decide_eq_true behind⟩
        have onward : Provider.optional (key last) = some (key last) := by
          rw [Provider.optional, if_neg (named last inside.1)]
        obtain ⟨result, s', ran, outcome⟩ := ih (s := s.next) fetches (key last)
        simp only [Option.bind_some, run_bind]
        rw [ran]
        refine ⟨_, s', rfl, ?_⟩
        rcases outcome with ⟨err, i, fault, rfl⟩ | rfl
        · exact .inl ⟨err, i + 1, fault, rfl⟩
        · right
          rw [onward, after_after inside.2]
          simp only [next]
          cases follow key pages (fun i => size (s.turns (i + 1)))
              (after key (some (key last)) entries) with
          | none => rfl
          | some rest => exact congrArg (fun all => some (Except.ok all)) (append found rest).symm

/-- With a call for every entry and one more, the end is reached. -/
theorem drain_ends (fetches : Fetches fetch s.bucket key entries size shape)
    (append : ∀ front rest, shape (front ++ rest) = shape front ++ shape rest)
    (named : ∀ e ∈ entries, key e ≠ "") (positive : ∀ turn, 0 < size turn)
    (enough : entries.length < pages) :
    ∃ result s', (drain fetch pages "").run serve s = some (some result, s') ∧
      ((∃ err i, (s.turns i).fault ≠ none ∧ result = .error err) ∨
        ∃ found, follow key pages (fun i => size (s.turns i)) entries = some found ∧
          result = .ok (shape found)) := by
  obtain ⟨result, s', ran, outcome⟩ := drain_spec fetches append named pages ""
  rcases outcome with ⟨err, i, fault, rfl⟩ | rfl
  · exact ⟨_, s', ran, .inl ⟨err, i, fault, rfl⟩⟩
  · obtain ⟨found, followed⟩ : ∃ found,
        follow key pages (fun i => size (s.turns i)) entries = some found :=
      follow_ends (fun i => positive (s.turns i)) enough
    have start : after key (Provider.optional "") entries = entries := rfl
    rw [start, followed] at ran
    exact ⟨_, s', ran, .inr ⟨found, followed, rfl⟩⟩

end Draining

/-- A version as the inventory reports it. -/
def versionMeta (key : String) (v : ObjectVersion) : ObjectMeta where
  key := key
  versionID := v.versionId
  size := v.size
  versioningState := .enabled
  writeTime := v.lastModified

/-- The versions of a key among some items. -/
def versionsOf (key : String) (items : List Item) : List ObjectMeta :=
  ((items.filterMap Item.version?).filter fun v => v.key = key).map (versionMeta key)

def Bucket.versions (b : Bucket) (key : String) : List ObjectMeta := versionsOf key b.items

theorem versionsOf_append (key : String) (front rest : List Item) :
    versionsOf key (front ++ rest) = versionsOf key front ++ versionsOf key rest := by
  simp [versionsOf]

/-- Only the items of the key count. -/
theorem versionsOf_filter (key : String) (items : List Item) :
    versionsOf key (items.filter fun item => item.key = key) = versionsOf key items := by
  induction items with
  | nil => rfl
  | cons item rest ih =>
    have front := versionsOf_append key [item] rest
    rw [List.singleton_append] at front
    by_cases own : item.key = key
    · rw [List.filter_cons_of_pos (by simpa using own), front, ← ih]
      exact versionsOf_append key [item] _
    · have none : versionsOf key [item] = [] := by
        cases item with
        | version v =>
          have other : ¬ v.key = key := own
          simp [versionsOf, Item.version?, other]
        | deleteMarker d => rfl
      rw [List.filter_cons_of_neg (by simpa using own), front, none, ih, List.nil_append]

theorem versionsOf_eq_nil {items : List Item} (own : ∀ item ∈ items, item.key = key) :
    versionsOf key items = [] ↔ ∀ item ∈ items, item.version? = none := by
  simp only [versionsOf, List.map_eq_nil_iff, List.filter_eq_nil_iff, List.mem_filterMap]
  constructor
  · intro none item member
    cases item with
    | deleteMarker d => rfl
    | version v =>
      have same : v.key = key := own _ member
      exact absurd (decide_eq_true same) (none v ⟨_, member, rfl⟩)
  · rintro none v ⟨item, member, isVersion⟩
    rw [none item member] at isVersion
    contradiction

/-- The first so many items of a key have all its versions. -/
theorem Bucket.versions_eq_iff (b : Bucket) (key : String) (count : Nat) :
    versionsOf key ((b.ofKey key).take count) = b.versions key ↔
      ∀ item ∈ (b.ofKey key).drop count, item.version? = none := by
  have own : ∀ item ∈ (b.ofKey key).drop count, item.key = key := by
    intro item member
    exact of_decide_eq_true (List.mem_filter.mp (List.mem_of_mem_drop member)).2
  have whole : b.versions key = versionsOf key ((b.ofKey key).take count) ++
      versionsOf key ((b.ofKey key).drop count) := by
    rw [← versionsOf_append, List.take_append_drop]
    exact (versionsOf_filter key b.items).symm
  rw [whole, ← versionsOf_eq_nil own, List.self_eq_append_right]

section Listings
variable (p : Provider) (b : Bucket)

/-- One call of `ListObjectVersions`. -/
theorem listObjectVersions_run (s : Service) (named : key ≠ "") (cursor : String) (maxKeys : Int) :
    (p.listObjectVersions key cursor maxKeys).run serve s =
      some (match s.turn.fault with
        | some err => .error (p.classifyError err key)
        | none =>
          let found := s.versionPage ⟨key, Provider.optional cursor, Provider.pageSize maxKeys⟩
          .ok ⟨versionsOf key found.entries, found.next.getD "", found.next.isSome⟩, s.next) := by
  have served : serve s (.listObjectVersions
      ⟨key, Provider.optional cursor, Provider.pageSize maxKeys⟩) =
    some (s.answer (versionOutput (s.versionPage
      ⟨key, Provider.optional cursor, Provider.pageSize maxKeys⟩)), s.next) := rfl
  simp only [Provider.listObjectVersions, if_neg named]
  rw [run_ask served]
  cases fault : s.turn.fault with
  | some err =>
    simp only [answer, fault]
    rfl
  | none =>
    simp only [answer, fault]
    rfl

/-- One call of `ListMultipartUploads`. -/
theorem listMultipartUploads_run (s : Service) (start cursor : String) :
    (p.listMultipartUploads start cursor).run serve s =
      some (match s.turn.fault with
        | some err => .error (p.classifyError err "")
        | none =>
          let found := s.uploadPage ⟨Provider.optional start, Provider.optional cursor⟩
          .ok ⟨found.entries, found.next.getD ""⟩, s.next) := by
  have served : serve s (.listMultipartUploads ⟨Provider.optional start, Provider.optional cursor⟩) =
    some (s.answer ⟨(s.uploadPage ⟨Provider.optional start, Provider.optional cursor⟩).entries,
      (s.uploadPage ⟨Provider.optional start, Provider.optional cursor⟩).next⟩, s.next) := rfl
  simp only [Provider.listMultipartUploads]
  rw [run_ask served]
  cases fault : s.turn.fault with
  | some err =>
    simp only [answer, fault]
    rfl
  | none =>
    simp only [answer, fault]
    rfl

theorem allVersions_fetches (named : key ≠ "") (maxKeys : Int) :
    Fetches (fun cursor => do
      match ← p.listObjectVersions key cursor maxKeys with
      | .error err => pure (.error err)
      | .ok page =>
        pure (.ok (page.versions, if page.isTruncated then some page.nextCursor else none)))
      b Item.key (b.under key) (fun turn => turn.pageLength (Provider.pageSize maxKeys))
      (versionsOf key) := by
  rintro s cursor rfl
  rw [run_bind, listObjectVersions_run p s named]
  cases fault : s.turn.fault with
  | some err => exact .inl ⟨_, nofun, rfl⟩
  | none =>
    right
    simp only [versionPage]
    generalize page Item.key _ _ = found
    cases next : found.next <;> simp [Program.run]

theorem allUploads_fetches (start : String) :
    Fetches (fun cursor => do
      match ← p.listMultipartUploads start cursor with
      | .error err => pure (.error err)
      | .ok page =>
        pure (.ok (page.uploads, if page.nextCursor = "" then none else some page.nextCursor)))
      b MultipartUpload.key (b.uploadsUnder start) (fun turn => turn.pageLength 1000) id := by
  rintro s cursor rfl
  rw [run_bind, listMultipartUploads_run p s]
  cases fault : s.turn.fault with
  | some err => exact .inl ⟨_, nofun, rfl⟩
  | none =>
    right
    have whole : (Provider.optional start).getD "" = start := by
      by_cases empty : start = "" <;> simp [Provider.optional, empty]
    simp only [uploadPage, whole]
    generalize current : page MultipartUpload.key _ _ = found
    cases next : found.next with
    | none => simp [Program.run]
    | some k =>
      rw [← current] at next
      obtain ⟨_, _, last, taken, rfl⟩ := page_next next
      have seen := List.mem_of_mem_take (taken ▸ List.mem_append_right _ List.mem_cons_self)
      have named : last.key ≠ "" :=
        s.bucket.uploadsNamed last (List.mem_of_mem_filter (mem_of_mem_after seen))
      simp [Program.run, named]

end Listings

/-- No version of the key falls behind the first page. -/
def VersionsListed (s : Service) (key : String) (maxKeys : Int) : Prop :=
  ∀ item ∈ (s.bucket.ofKey key).drop (s.turn.pageLength (Provider.pageSize maxKeys)),
    item.version? = none

section Completeness
variable (p : Provider) (s : Service) (pages : Nat)

theorem allVersions_complete_iff (key : String) (maxKeys : Int) : ∃ result s',
    (p.allVersions key maxKeys (s.bucket.items.length + 1 + pages)).run serve s =
      some (some result, s') ∧
    (∀ versions, result = .ok versions →
      (versions = s.bucket.versions key ↔ VersionsListed s key maxKeys)) ∧
    (key ≠ "" → (∀ i, (s.turns i).fault = none) → ∃ versions, result = .ok versions) := by
  by_cases empty : key = ""
  · refine ⟨.error (p.missing "key is required"), s, ?_, nofun, fun named => absurd empty named⟩
    rw [show s.bucket.items.length + 1 + pages = s.bucket.items.length + pages + 1 by omega]
    simp only [Provider.allVersions, drain, Provider.listObjectVersions, if_pos empty]
    rfl
  · have named : ∀ item ∈ s.bucket.under key, item.key ≠ "" := by
      intro item member none
      have under := (List.mem_filter.mp member).2
      rw [none] at under
      exact empty (startsWith_empty under)
    have enough : (s.bucket.under key).length < s.bucket.items.length + 1 + pages := by
      have fewer : (s.bucket.under key).length ≤ s.bucket.items.length := List.length_filter_le _ _
      omega
    obtain ⟨result, s', ran, outcome⟩ := drain_ends (allVersions_fetches p s.bucket empty maxKeys)
      (versionsOf_append key) named (fun turn => turn.pageLength_pos _) enough
    refine ⟨result, s', ran, ?_, ?_⟩
    · rintro versions rfl
      rcases outcome with ⟨_, _, _, impossible⟩ | ⟨found, followed, same⟩
      · contradiction
      · cases same
        have first := follow_least (s.bucket.under_least key) (s.bucket.under_ordered key) followed
        rw [Bucket.under_ofKey] at first
        rw [← versionsOf_filter, first]
        exact s.bucket.versions_eq_iff key _
    · intro _ calm
      rcases outcome with ⟨_, i, fault, _⟩ | ⟨found, _, same⟩
      · exact absurd (calm i) fault
      · exact ⟨_, same⟩

theorem allUploads_complete_iff (start : String) : ∃ result s',
    (p.allUploads start (s.bucket.uploads.length + 1 + pages)).run serve s =
      some (some result, s') ∧
    (∀ uploads, result = .ok uploads → (uploads = s.bucket.uploadsUnder start ↔
      Uncut MultipartUpload.key (fun i => (s.turns i).pageLength 1000)
        (s.bucket.uploadsUnder start))) ∧
    ((∀ i, (s.turns i).fault = none) → ∃ uploads, result = .ok uploads) := by
  have named : ∀ u ∈ s.bucket.uploadsUnder start, u.key ≠ "" := fun u member =>
    s.bucket.uploadsNamed u (List.mem_of_mem_filter member)
  have enough : (s.bucket.uploadsUnder start).length < s.bucket.uploads.length + 1 + pages := by
    have fewer : (s.bucket.uploadsUnder start).length ≤ s.bucket.uploads.length :=
      List.length_filter_le _ _
    omega
  obtain ⟨result, s', ran, outcome⟩ := drain_ends (allUploads_fetches p s.bucket start)
    (fun _ _ => rfl) named (fun turn => turn.pageLength_pos _) enough
  refine ⟨result, s', ran, ?_, ?_⟩
  · rintro uploads rfl
    rcases outcome with ⟨_, _, _, impossible⟩ | ⟨found, followed, same⟩
    · contradiction
    · cases same
      exact follow_eq_iff (s.bucket.uploadsOrdered.filter _)
        (fun i => (s.turns i).pageLength_pos _) followed
  · intro calm
    rcases outcome with ⟨_, i, fault, _⟩ | ⟨found, _, same⟩
    · exact absurd (calm i) fault
    · exact ⟨_, same⟩

end Completeness

/-- Read to its end, the version inventory of a key is complete exactly if the first page
has all its versions, and the upload inventory exactly if no page ends between two uploads
of one key. -/
theorem inventory_complete_iff (p : Provider) (s : Service) (key start : String) (maxKeys : Int)
    (pages : Nat) :
    (∃ result s', (p.allVersions key maxKeys (s.bucket.items.length + 1 + pages)).run serve s =
        some (some result, s') ∧
      (∀ versions, result = .ok versions →
        (versions = s.bucket.versions key ↔ VersionsListed s key maxKeys)) ∧
      (key ≠ "" → (∀ i, (s.turns i).fault = none) → ∃ versions, result = .ok versions)) ∧
    ∃ result s', (p.allUploads start (s.bucket.uploads.length + 1 + pages)).run serve s =
        some (some result, s') ∧
      (∀ uploads, result = .ok uploads → (uploads = s.bucket.uploadsUnder start ↔
        Uncut MultipartUpload.key (fun i => (s.turns i).pageLength 1000)
          (s.bucket.uploadsUnder start))) ∧
      ((∀ i, (s.turns i).fault = none) → ∃ uploads, result = .ok uploads) :=
  ⟨allVersions_complete_iff p s pages key maxKeys, allUploads_complete_iff p s pages start⟩

/-- A key with two versions and two uploads in progress. -/
def twins : Bucket where
  items := [.version { key := "k", versionId := "2" }, .version { key := "k", versionId := "1" }]
  uploads := [⟨"k", "a"⟩, ⟨"k", "b"⟩]
  ordered := List.pairwise_pair.mpr le_rfl
  distinct := by decide
  uploadsOrdered := List.pairwise_pair.mpr le_rfl
  uploadsNamed := by decide

/-- With one entry on a page, the second version and the second upload are never listed. -/
theorem inventory_loses_second :
    (((Provider.allVersions { providerName := "s3", bucket := "b" } "k" 1 3).run serve
        ⟨twins, fun _ => { size := 1 }⟩).map fun r => r.1) =
      some (some (.ok [versionMeta "k" { key := "k", versionId := "2" }])) ∧
    (((Provider.allUploads { providerName := "s3", bucket := "b" } "" 3).run serve
        ⟨twins, fun _ => { size := 1 }⟩).map fun r => r.1) = some (some (.ok [⟨"k", "a"⟩])) ∧
    (twins.versions "k").length = 2 ∧ (twins.uploadsUnder "").length = 2 := by
  refine ⟨rfl, rfl, rfl, rfl⟩

end KDrive.S3
