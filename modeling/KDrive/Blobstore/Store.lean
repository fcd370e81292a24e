import KDrive.Blobstore.Types

/-! The durable store as the pipeline sees it, and the store it is meant to be: a
map from keys to their current objects, with uploads that become objects when
they are completed. -/
namespace KDrive.Blobstore
open Go

/-- The part of `BlobStore` the data plane uses. `Weather` says how a provider
answers where its answer is not determined by what it stores. -/
class Store (S : Type) where
  Weather : Type
  put : Weather → Time → S → PutRequest → Except GoError (PutResult × Bytes) × S
  get : Weather → S → VersionedObjectRef → Except GoError (Reader × ObjectMeta) × S
  head : Weather → S → ObjectRef → Except GoError ObjectMeta × S
  createMultipart : Weather → S → MultipartRequest → Except GoError MultipartUpload × S
  uploadPart : Weather → S → UploadPartRequest → Except GoError UploadedPart × S
  completeMultipart : Weather → Time → S → CompleteRequest → Except GoError PutResult × S
  abortMultipart : Weather → S → MultipartUpload → Option GoError × S

structure Object where
  data : Bytes
  versionID : String := ""
  retention : RetentionState := {}
  writeTime : Time := 0
  deriving DecidableEq

/-- Metadata an answer leaves out: what is left out has its zero value. -/
structure Omission where
  size : Bool := false
  checksum : Bool := false
  deriving DecidableEq

namespace Object

def info (omitted : Omission) (key : String) (object : Object) : ObjectMeta where
  key := key
  versionID := object.versionID
  versioningState := .enabled
  size := if omitted.size then 0 else object.data.length
  checksumSHA256 := if omitted.checksum then "" else checksumSHA256 object.data
  retention := object.retention
  writeTime := object.writeTime

def result (omitted : Omission) (key : String) (object : Object) : PutResult where
  key := key
  versionID := object.versionID
  versioningState := .enabled
  size := if omitted.size then 0 else object.data.length
  checksumSHA256 := if omitted.checksum then "" else checksumSHA256 object.data
  retention := object.retention
  writeTime := object.writeTime

end Object

structure MapStore where
  objects : String → Option Object := fun _ => none
  uploads : MultipartUpload → Option (List (Int × Bytes)) := fun _ => none
  issued : Nat := 0

namespace MapStore

def newID (s : MapStore) : String := toString s.issued

def insert (s : MapStore) (key : String) (object : Object) : MapStore :=
  { s with objects := Function.update s.objects key (some object), issued := s.issued + 1 }

def put (omitted : Omission) (now : Time) (s : MapStore) (req : PutRequest) :
    Except GoError (PutResult × Bytes) × MapStore :=
  match req.body.readAll with
  | .error err => (.error err, s)
  | .ok data =>
    if 0 < req.expectedLength ∧ (data.length : Int) ≠ req.expectedLength then
      (.error errChecksumMismatch, s)
    else if req.checksumSHA256 ≠ "" ∧ checksumSHA256 data ≠ req.checksumSHA256 then
      (.error errChecksumMismatch, s)
    else
      let retention := req.retention
      let object : Object :=
        ⟨data, s.newID, ⟨retention.mode, retention.retainUntil, retention.legalHold⟩, now⟩
      (.ok (object.result omitted req.key, data), s.insert req.key object)

def get (omitted : Omission) (s : MapStore) (ref : VersionedObjectRef) :
    Except GoError (Reader × ObjectMeta) × MapStore :=
  match s.objects ref.key with
  | none => (.error errNotFound, s)
  | some object => (.ok (⟨object.data, none⟩, object.info omitted ref.key), s)

def head (omitted : Omission) (s : MapStore) (ref : ObjectRef) :
    Except GoError ObjectMeta × MapStore :=
  match s.objects ref.key with
  | none => (.error errNotFound, s)
  | some object => (.ok (object.info omitted ref.key), s)

def createMultipart (s : MapStore) (req : MultipartRequest) :
    Except GoError MultipartUpload × MapStore :=
  let upload : MultipartUpload := ⟨req.key, s.newID⟩
  (.ok upload,
    { s with uploads := Function.update s.uploads upload (some []), issued := s.issued + 1 })

def uploadPart (s : MapStore) (req : UploadPartRequest) : Except GoError UploadedPart × MapStore :=
  if req.partNumber < 1 then (.error (.new "part number must be >= 1"), s)
  else match s.uploads req.upload with
    | none => (.error errNotFound, s)
    | some parts =>
      (.ok ⟨req.partNumber, checksumSHA256 req.body, req.body.length⟩,
        { s with uploads :=
            Function.update s.uploads req.upload (some ((req.partNumber, req.body) :: parts)) })

/-- The listed parts in the order of the list; a part sent twice counts as sent last. -/
def assemble (parts : List (Int × Bytes)) : List CompletedPart → Option Bytes
  | [] => some []
  | part :: rest =>
    match parts.lookup part.partNumber, assemble parts rest with
    | some body, some bodies => some (body ++ bodies)
    | _, _ => none

def completeMultipart (omitted : Omission) (now : Time) (s : MapStore) (req : CompleteRequest) :
    Except GoError PutResult × MapStore :=
  match (s.uploads req.upload).bind (assemble · req.parts) with
  | none => (.error errNotFound, s)
  | some data =>
    let retention := req.retention
    let object : Object :=
      ⟨data, s.newID, ⟨retention.mode, retention.retainUntil, retention.legalHold⟩, now⟩
    let s := s.insert req.upload.key object
    (.ok (object.result omitted req.upload.key),
      { s with uploads := Function.update s.uploads req.upload none })

def abortMultipart (s : MapStore) (upload : MultipartUpload) : Option GoError × MapStore :=
  (none, { s with uploads := Function.update s.uploads upload none })

instance : Store MapStore where
  Weather := Omission
  put := put
  get := get
  head := head
  createMultipart _ := createMultipart
  uploadPart _ := uploadPart
  completeMultipart := completeMultipart
  abortMultipart _ := abortMultipart

@[simp] theorem insert_objects (s : MapStore) (key : String) (object : Object) (other : String) :
    (s.insert key object).objects other = if other = key then some object else s.objects other :=
  Function.update_apply ..

theorem put_cases (omitted : Omission) (now : Time) (s : MapStore) (req : PutRequest) :
    (∃ err, put omitted now s req = (.error err, s)) ∨
      ∃ object : Object, req.body.failure = none ∧ object.data = req.body.data ∧
        (0 < req.expectedLength → (object.data.length : Int) = req.expectedLength) ∧
        (req.checksumSHA256 = "" ∨ checksumSHA256 object.data = req.checksumSHA256) ∧
        put omitted now s req =
          (.ok (object.result omitted req.key, object.data), s.insert req.key object) := by
  unfold put Reader.readAll
  split
  · exact .inl ⟨_, rfl⟩
  · rename_i data read
    split at read
    · rename_i sound
      cases read
      split
      · exact .inl ⟨_, rfl⟩
      · rename_i length
        split
        · exact .inl ⟨_, rfl⟩
        · rename_i sum
          refine .inr ⟨_, sound, rfl, fun positive => ?_, ?_, rfl⟩
          · simpa [positive] using length
          · simpa [or_iff_not_imp_left] using sum
    · contradiction

theorem uploadPart_cases (s : MapStore) (req : UploadPartRequest) :
    (∃ err, uploadPart s req = (.error err, s)) ∨
      ∃ parts, 1 ≤ req.partNumber ∧ s.uploads req.upload = some parts ∧
        uploadPart s req = (.ok ⟨req.partNumber, checksumSHA256 req.body, req.body.length⟩,
          { s with uploads :=
              Function.update s.uploads req.upload (some ((req.partNumber, req.body) :: parts)) }) := by
  unfold uploadPart
  split
  · exact .inl ⟨_, rfl⟩
  · rename_i positive
    split
    · exact .inl ⟨_, rfl⟩
    · rename_i parts found
      exact .inr ⟨parts, by omega, found, rfl⟩

theorem completeMultipart_cases (omitted : Omission) (now : Time) (s : MapStore)
    (req : CompleteRequest) :
    (∃ err, completeMultipart omitted now s req = (.error err, s)) ∨
      ∃ (parts : List (Int × Bytes)) (object : Object), s.uploads req.upload = some parts ∧
        assemble parts req.parts = some object.data ∧
        completeMultipart omitted now s req = (.ok (object.result omitted req.upload.key),
          { s.insert req.upload.key object with
            uploads := Function.update s.uploads req.upload none }) := by
  unfold completeMultipart
  split
  · exact .inl ⟨_, rfl⟩
  · rename_i data assembled
    obtain ⟨parts, found, assembled⟩ := Option.bind_eq_some_iff.mp assembled
    exact .inr ⟨parts, _, found, assembled, rfl⟩

/-- Where every part is what its number says, the object is what the numbers say. -/
theorem assemble_eq {parts : List (Int × Bytes)} {f : Int → Bytes}
    (numbered : ∀ part ∈ parts, part.2 = f part.1) {listed : List CompletedPart}
    (assembled : assemble parts listed = some data) :
    data = ((listed.map CompletedPart.partNumber).map f).flatten := by
  induction listed generalizing data with
  | nil => simpa [assemble] using assembled.symm
  | cons part rest ih =>
    simp only [assemble] at assembled
    split at assembled
    · rename_i first remaining found assembled'
      cases assembled
      obtain ⟨before, after, rfl, _⟩ := List.lookup_eq_some_iff.mp found
      have first_eq : first = f part.partNumber := numbered (part.partNumber, first) (by simp)
      simp [first_eq, ih assembled']
    · contradiction

end MapStore
end KDrive.Blobstore
