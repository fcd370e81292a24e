import KDrive.Blobstore.Store

/-! What a durable store keeps, whatever the provider behind it: the current bytes of every
key and the parts of every upload. An operation that succeeds did to them what it is for;
in `willing` weather an operation fails only for a reason of its own. -/
namespace KDrive.Blobstore
open Go

class FaithfulStore (S : Type) extends Store S where
  current : S → String → Option Bytes
  staged : S → MultipartUpload → Option (List (Int × Bytes))
  willing : Weather → Prop
  head_current : ∀ weather s ref, current (head weather s ref).2 = current s
  put_ok : ∀ {weather now s req res drawn s'}, put weather now s req = (.ok (res, drawn), s') →
    req.body.failure = none ∧ drawn = req.body.data ∧ current s' req.key = some req.body.data
  put_willing : ∀ {weather now s req}, willing weather → req.body.failure = none →
    (0 < req.expectedLength → (req.body.data.length : Int) = req.expectedLength) →
    (req.checksumSHA256 = "" ∨ checksumSHA256 req.body.data = req.checksumSHA256) →
    ∃ res drawn s', put weather now s req = (.ok (res, drawn), s')
  create_ok : ∀ {weather s req upload s'}, createMultipart weather s req = (.ok upload, s') →
    upload.key = req.key ∧ staged s' upload = some []
  create_willing : ∀ {weather s req}, willing weather →
    ∃ upload s', createMultipart weather s req = (.ok upload, s')
  part_ok : ∀ {weather s req part s'}, uploadPart weather s req = (.ok part, s') →
    part.partNumber = req.partNumber ∧ 1 ≤ req.partNumber ∧
      ∃ parts, staged s req.upload = some parts ∧
        staged s' req.upload = some ((req.partNumber, req.body) :: parts)
  part_willing : ∀ {weather s req parts}, willing weather → 1 ≤ req.partNumber →
    staged s req.upload = some parts → ∃ part s', uploadPart weather s req = (.ok part, s')
  complete_ok : ∀ {weather now s req res s'}, completeMultipart weather now s req = (.ok res, s') →
    ∃ parts data, staged s req.upload = some parts ∧
      MapStore.assemble parts req.parts = some data ∧ current s' req.upload.key = some data
  complete_willing : ∀ {weather now s req parts data}, willing weather →
    staged s req.upload = some parts → MapStore.assemble parts req.parts = some data →
    ∃ res s', completeMultipart weather now s req = (.ok res, s')

namespace MapStore

theorem head_data (omitted : Omission) (s : MapStore) (ref : ObjectRef) :
    (fun key => ((head omitted s ref).2.objects key).map Object.data) =
      fun key => (s.objects key).map Object.data := by
  unfold head
  split <;> rfl

theorem put_stores (ran : put omitted now s req = (.ok (res, drawn), s')) :
    req.body.failure = none ∧ drawn = req.body.data ∧
      (s'.objects req.key).map Object.data = some req.body.data := by
  rcases put_cases omitted now s req with ⟨err, failed⟩ | ⟨object, whole, data, _, _, stored⟩
  · cases failed.symm.trans ran
  · rw [stored] at ran
    cases ran
    exact ⟨whole, data, by simp [data]⟩

theorem put_accepts (whole : req.body.failure = none)
    (length : 0 < req.expectedLength → (req.body.data.length : Int) = req.expectedLength)
    (sum : req.checksumSHA256 = "" ∨ checksumSHA256 req.body.data = req.checksumSHA256) :
    ∃ res drawn s', put omitted now s req = (.ok (res, drawn), s') := by
  have fits : ¬ (0 < req.expectedLength ∧ (req.body.data.length : Int) ≠ req.expectedLength) :=
    fun ⟨positive, other⟩ => other (length positive)
  have right : ¬ (req.checksumSHA256 ≠ "" ∧
      checksumSHA256 req.body.data ≠ req.checksumSHA256) := by
    rintro ⟨given, other⟩
    rcases sum with none | same
    · exact given none
    · exact other same
  simp only [put, Reader.readAll, whole, if_neg fits, if_neg right]
  exact ⟨_, _, _, rfl⟩

theorem createMultipart_stages (ran : createMultipart s req = (.ok upload, s')) :
    upload.key = req.key ∧ s'.uploads upload = some [] := by
  cases ran
  exact ⟨rfl, by simp⟩

theorem uploadPart_stages (ran : uploadPart s req = (.ok part, s')) :
    part.partNumber = req.partNumber ∧ 1 ≤ req.partNumber ∧
      ∃ parts, s.uploads req.upload = some parts ∧
        s'.uploads req.upload = some ((req.partNumber, req.body) :: parts) := by
  rcases uploadPart_cases s req with ⟨err, failed⟩ | ⟨parts, positive, found, sent⟩
  · cases failed.symm.trans ran
  · rw [sent] at ran
    cases ran
    exact ⟨rfl, positive, parts, found, by simp⟩

theorem uploadPart_accepts (positive : 1 ≤ req.partNumber)
    (found : s.uploads req.upload = some parts) :
    ∃ part s', uploadPart s req = (.ok part, s') := by
  have valid : ¬ req.partNumber < 1 := by omega
  simp only [uploadPart, if_neg valid, found]
  exact ⟨_, _, rfl⟩

theorem completeMultipart_stores (ran : completeMultipart omitted now s req = (.ok res, s')) :
    ∃ parts data, s.uploads req.upload = some parts ∧ assemble parts req.parts = some data ∧
      (s'.objects req.upload.key).map Object.data = some data := by
  rcases completeMultipart_cases omitted now s req with
    ⟨err, failed⟩ | ⟨parts, object, found, assembled, completed⟩
  · cases failed.symm.trans ran
  · rw [completed] at ran
    cases ran
    exact ⟨parts, object.data, found, assembled, by simp⟩

theorem completeMultipart_accepts (found : s.uploads req.upload = some parts)
    (assembled : assemble parts req.parts = some data) :
    ∃ res s', completeMultipart omitted now s req = (.ok res, s') := by
  simp only [completeMultipart, found, Option.bind_some, assembled]
  exact ⟨_, _, rfl⟩

instance : FaithfulStore MapStore where
  current s key := (s.objects key).map Object.data
  staged s upload := s.uploads upload
  willing _ := True
  head_current := head_data
  put_ok := put_stores
  put_willing _ := put_accepts
  create_ok := createMultipart_stages
  create_willing _ := ⟨_, _, rfl⟩
  part_ok := uploadPart_stages
  part_willing _ := uploadPart_accepts
  complete_ok := completeMultipart_stores
  complete_willing _ := completeMultipart_accepts

/-- Every listed part is there. -/
theorem assemble_some {parts : List (Int × Bytes)} {listed : List CompletedPart}
    (there : ∀ part ∈ listed, ∃ body, parts.lookup part.partNumber = some body) :
    ∃ data, assemble parts listed = some data := by
  induction listed with
  | nil => exact ⟨[], rfl⟩
  | cons part rest ih =>
    obtain ⟨body, found⟩ := there part List.mem_cons_self
    obtain ⟨data, assembled⟩ := ih fun other member => there other (List.mem_cons_of_mem _ member)
    exact ⟨body ++ data, by simp only [assemble, found, assembled]⟩

end MapStore
end KDrive.Blobstore
