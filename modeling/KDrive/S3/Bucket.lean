import KDrive.Paging.Markers
import KDrive.S3.Provider
import Mathlib.Data.String.Basic

/-! A versioned bucket behind the listing and deleting calls of the S3 API: versions and
delete markers in key order, uploads in progress in key order, pages that resume strictly
after a key. How long a page gets within its limit, which objects a batch deletion does
not delete, and which calls fail is up to the service. -/
namespace KDrive.S3
open Go Blobstore Interaction Paging

/-- An entry of a version listing. -/
inductive Item where
  | version (v : ObjectVersion)
  | deleteMarker (d : ObjectIdentifier)
  deriving DecidableEq

namespace Item

def id : Item → ObjectIdentifier
  | .version v => ⟨v.key, v.versionId⟩
  | .deleteMarker d => d

def key (item : Item) : String := item.id.key

def version? : Item → Option ObjectVersion
  | .version v => some v
  | .deleteMarker _ => none

def deleteMarker? : Item → Option ObjectIdentifier
  | .version _ => none
  | .deleteMarker d => some d

end Item

structure Bucket where
  items : List Item
  uploads : List MultipartUpload
  ordered : InOrder Item.key items
  distinct : (items.map Item.id).Nodup
  uploadsOrdered : InOrder MultipartUpload.key uploads
  uploadsNamed : ∀ u ∈ uploads, u.key ≠ ""

/-- Whether a key is listed under a prefix. -/
def startsWith (key start : String) : Bool := start.toList.isPrefixOf key.toList

namespace Bucket

def ofKey (b : Bucket) (key : String) : List Item := b.items.filter fun item => item.key = key

def under (b : Bucket) (start : String) : List Item :=
  b.items.filter fun item => startsWith item.key start

def uploadsUnder (b : Bucket) (start : String) : List MultipartUpload :=
  b.uploads.filter fun u => startsWith u.key start

/-- Without the items that are picked. -/
def remove (b : Bucket) (picked : Item → Bool) : Bucket where
  items := b.items.filter fun item => !picked item
  uploads := b.uploads
  ordered := b.ordered.filter _
  distinct := b.distinct.sublist (List.filter_sublist.map _)
  uploadsOrdered := b.uploadsOrdered
  uploadsNamed := b.uploadsNamed

end Bucket

/-- What is up to the service at one call: the entries it puts on a page if the request
allows as many, what a batch does not delete, and an error of the call itself. -/
structure Turn where
  size : Nat
  rejects : ObjectIdentifier → Bool := fun _ => false
  fault : Option ApiError := none

/-- A page has at least one entry and at most as many as asked for. -/
def Turn.pageLength (turn : Turn) (maxKeys : Int) : Nat := max 1 (min turn.size maxKeys.toNat)

theorem Turn.pageLength_pos (turn : Turn) (maxKeys : Int) : 0 < turn.pageLength maxKeys :=
  Nat.lt_of_lt_of_le Nat.zero_lt_one (Nat.le_max_left _ _)

/-- The bucket, and what the service is going to do at the calls to come. -/
structure Service where
  bucket : Bucket
  turns : Nat → Turn

namespace Service

def turn (s : Service) : Turn := s.turns 0

def next (s : Service) : Service := { s with turns := fun i => s.turns (i + 1) }

def answer (s : Service) (result : α) : Except ApiError α :=
  match s.turn.fault with
  | some err => .error err
  | none => .ok result

def versionPage (s : Service) (input : ListObjectVersionsInput) : Page Item String :=
  page Item.key (s.turn.pageLength input.maxKeys)
    (after Item.key input.keyMarker (s.bucket.under input.keyPrefix))

/-- The request sets no limit, so the one of the service applies. -/
def uploadPage (s : Service) (input : ListMultipartUploadsInput) : Page MultipartUpload String :=
  page MultipartUpload.key (s.turn.pageLength 1000)
    (after MultipartUpload.key input.keyMarker (s.bucket.uploadsUnder (input.keyPrefix.getD "")))

def versionOutput (found : Page Item String) : ListObjectVersionsOutput where
  versions := found.entries.filterMap Item.version?
  deleteMarkers := found.entries.filterMap Item.deleteMarker?
  isTruncated := found.next.isSome
  nextKeyMarker := found.next

/-- The items of a batch that get deleted. -/
def deletes (turn : Turn) (objects : List ObjectIdentifier) (item : Item) : Bool :=
  objects.contains item.id && !turn.rejects item.id

/-- A batch that fails as a whole may have deleted some of its objects. -/
def serve : Executor api Service
  | s, .listObjectVersions input =>
    some (s.answer (versionOutput (s.versionPage input)), s.next)
  | s, .listMultipartUploads input =>
    some (s.answer ⟨(s.uploadPage input).entries, (s.uploadPage input).next⟩, s.next)
  | s, .deleteObjects objects =>
    some (s.answer (objects.filter s.turn.rejects),
      { s.next with bucket := s.bucket.remove (deletes s.turn objects) })
  | _, _ => none

/-- A request and what follows it. -/
theorem run_ask {q : Request} {f : q.Reply → Api α} {s s' : Service} {reply : q.Reply}
    (served : serve s q = some (reply, s')) :
    (ask q >>= f).run serve s = (f reply).run serve s' :=
  run_request (I := api) served

end Service

/-- Every key that begins with this one comes behind it. -/
theorem startsWith_le (under : startsWith key start = true) : start ≤ key := by
  have parts : start.toList <+: key.toList := List.isPrefixOf_iff_prefix.mp under
  exact not_lt.mp fun less => parts.le (String.lt_iff_toList_lt.mp less)

theorem startsWith_self (key : String) : startsWith key key = true :=
  List.isPrefixOf_iff_prefix.mpr List.prefix_rfl

theorem startsWith_empty (under : startsWith "" start = true) : start = "" := by
  have parts : start.toList <+: [] := List.isPrefixOf_iff_prefix.mp under
  exact String.toList_eq_nil_iff.mp (List.prefix_nil.mp parts)

namespace Bucket
variable (b : Bucket) (key : String)

theorem under_ordered : InOrder Item.key (b.under key) := b.ordered.filter _

theorem under_least : ∀ item ∈ b.under key, key ≤ item.key := by
  intro item member
  exact startsWith_le (List.mem_filter.mp member).2

/-- The items of a key are among those listed under it. -/
theorem under_ofKey : (b.under key).filter (fun item => item.key = key) = b.ofKey key := by
  simp only [under, ofKey, List.filter_filter]
  refine List.filter_congr fun item _ => ?_
  by_cases same : item.key = key
  · simp [same, startsWith_self]
  · simp [same]

end Bucket
end KDrive.S3
