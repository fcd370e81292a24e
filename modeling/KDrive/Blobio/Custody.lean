import KDrive.Blobio.Consistency

/-! Every request that respects the one-body discipline keeps it, whatever errors the
stores return, and what its reply then says about the world. -/
namespace KDrive.Blobio
open Go Blobstore Hotcache Interaction
variable {content : Contents} {guarded : Prop} {w w' : Node} {b : String}

/-- Nothing panics and, if `told`, the store's answers are complete; status and store calls
may fail. -/
def Plain (told : Prop) (fault : Fault MapStore) : Prop :=
  (told → fault.weather = ({} : Omission)) ∧ ∀ message applied, fault.trouble ≠ .panics message applied

section Calls

private theorem cacheGet_keeps (guarded : Prop) (inv : Consistent content w) (b : String) (now : Time) :
    Consistent content { w with cache := (MemoryCache.get w.cache b now).2 } ∧
      Keeps content guarded w { w with cache := (MemoryCache.get w.cache b now).2 } := by
  refine ⟨inv.setCache (inv.steady.get_steady b now) fun other held found => ?_,
    .setCache fun _ last other => ?_⟩
  · rcases inv.steady.get_view b now other with same | ⟨-, gone⟩
    · exact inv.cached other held (same.symm.trans found)
    · cases gone.symm.trans found
  · rcases inv.steady.get_view b now other with same | ⟨lapses, -⟩
    · simp only [Holds, same]
      exact fun held => held
    · exact absurd last lapses

private theorem cachePut_keeps (guarded : Prop) (inv : Consistent content w) {opts : PutOptions}
    (lasting : opts.ttl = 0) (stored : opts.nonEvictable = false → Stored w.store b) (now : Time) :
    Consistent content
        { w with cache := (MemoryCache.put w.cache b (some ⟨content b, none⟩) opts now).2 } ∧
      Keeps content guarded w
        { w with cache := (MemoryCache.put w.cache b (some ⟨content b, none⟩) opts now).2 } := by
  cases outcome : (MemoryCache.put w.cache b (some ⟨content b, none⟩) opts now).1 with
  | some err =>
    rw [MemoryCache.put_error outcome]
    exact ⟨inv, .refl w⟩
  | none =>
    obtain ⟨here, elsewhere⟩ := inv.steady.put outcome
    refine ⟨inv.setCache (inv.steady.put_steady lasting) fun other held found => ?_,
      .setCache fun _ _ other => ?_⟩
    · by_cases same : other = b
      · subst same
        cases here.symm.trans found
        exact ⟨rfl, stored⟩
      · rcases elsewhere other same with kept | ⟨gone, _⟩
        · exact inv.cached other held (kept.symm.trans found)
        · cases gone.symm.trans found
    · rintro (⟨held, found, body⟩ | durable)
      · by_cases same : other = b
        · subst same
          exact .inl ⟨_, here, rfl⟩
        · rcases elsewhere other same with kept | ⟨_, _, evicted⟩
          · exact .inl ⟨held, kept.trans found, body⟩
          · -- Only an evictable entry goes, and those are stored.
            obtain ⟨object, found⟩ := (inv.cached other _ evicted).2 rfl
            exact .inr ⟨object, found, inv.objects other object found⟩
      · exact .inr durable

section
variable (inv : Consistent content w)
include inv

private theorem cacheEvict_keeps (safe : guarded → Stored w.store b ∨ w.cache.view b = none) :
    Consistent content { w with cache := MemoryCache.evict w.cache b } ∧
      Keeps content guarded w { w with cache := MemoryCache.evict w.cache b } := by
  refine ⟨inv.setCache (inv.steady.evict_steady b) fun other held found => ?_,
    .setCache fun guard _ other => ?_⟩
  · rw [inv.steady.evict] at found
    split at found
    · contradiction
    · exact inv.cached other held found
  · rintro (⟨held, found, body⟩ | durable)
    · by_cases same : other = b
      · subst same
        rcases safe guard with ⟨object, stored⟩ | missing
        · exact .inr ⟨object, stored, inv.objects other object stored⟩
        · cases missing.symm.trans found
      · refine .inl ⟨held, ?_, body⟩
        simp only [inv.steady.evict, if_neg same, found]
    · exact .inr durable

private theorem statusPut_keeps {status : BlobStatus}
    (described : content.Described status.blobID status.size status.checksumSHA256)
    (stored : status.commitState = .durable → Stored w.store status.blobID) :
    Consistent content { w with status := Function.update w.status status.blobID (some status) } := by
  refine inv.setStatus fun other row found => ?_
  rw [Function.update_apply] at found
  split at found
  · rename_i same
    cases found
    rw [same]
    exact ⟨described, stored⟩
  · exact inv.rows other row found

private theorem markDurable_keeps {size : Int} {checksum : String}
    (stored : Stored w.store b) (described : content.Described b size checksum) (versionID : String)
    (durableAt : Time) :
    Consistent content { w with status := markDurable w.status b versionID size checksum durableAt } := by
  refine inv.setStatus fun other row found => ?_
  rw [markDurable_apply] at found
  split at found
  · rename_i same
    obtain ⟨existing, _, rfl⟩ := Option.map_eq_some_iff.mp found
    rw [same]
    exact ⟨described, fun _ => stored⟩
  · exact inv.rows other row found

private theorem insert_extends {object : Object}
    (right : object.data = content b) : Extends content w (w.store.insert b object) where
  grows other stored := by
    simp only [Stored, MapStore.insert_objects]
    split
    · exact ⟨object, rfl⟩
    · exact stored
  objects other current found := by
    rw [MapStore.insert_objects] at found
    split at found
    · rename_i same
      cases found
      rw [same, right]
    · exact inv.objects other current found
  parts := inv.parts

private theorem uploads_extends (upload : MultipartUpload)
    (state : Option (List (Int × Bytes))) (issued : Nat)
    (right : ∀ parts, state = some parts → ∀ part ∈ parts,
      1 ≤ part.1 ∧ part.2 = slice promotePartSize (content upload.key) (part.1 - 1).toNat) :
    Extends content w
      { w.store with uploads := Function.update w.store.uploads upload state, issued } where
  grows _ stored := stored
  objects := inv.objects
  parts other parts found := by
    simp only [Function.update_apply] at found
    split at found
    · rename_i same
      rw [same]
      exact right parts found
    · exact inv.parts other parts found

private theorem assemble_content {req : CompleteRequest}
    (numbered : req.parts.map CompletedPart.partNumber =
      partNumbers (partCount promotePartSize (content req.upload.key).length))
    (found : w.store.uploads req.upload = some parts)
    (assembled : MapStore.assemble parts req.parts = some data) : data = content req.upload.key := by
  have right := MapStore.assemble_eq
    (f := fun n => slice promotePartSize (content req.upload.key) (n - 1).toNat)
    (fun part member => (inv.parts req.upload parts found part member).2) assembled
  rw [right, numbered, slices_partNumbers promotePartSize_pos]

end

private theorem describes_result {object : Object} (complete : content.told → omitted = {})
    (key : String) (right : object.data = content b) :
    content.Described b (object.result omitted key).size (object.result omitted key).checksumSHA256 := by
  intro told
  simp only [complete told, Object.result, ← right]
  exact ⟨rfl, rfl⟩

private theorem describes_info {object : Object} (complete : content.told → omitted = {})
    (key : String) (right : object.data = content b) :
    content.Described b (object.info omitted key).size (object.info omitted key).checksumSHA256 := by
  intro told
  simp only [complete told, Object.info, ← right]
  exact ⟨rfl, rfl⟩

end Calls

section
variable (content)

/-- What a call's answer says about the world it leaves. -/
def CallLearns (w : Node) : (c : Call) → c.Result → Prop
  | .cacheGet _ b => fun result => ∀ r md, result = .ok (r, md) → r = ⟨content b, none⟩
  | .cachePut _ b _ _ => fun result => result = none → Holds content w b
  | .statusGet _ b => fun result => ∀ status, result = .ok (some status) →
    content.Described b status.size status.checksumSHA256 ∧
      (status.commitState = .durable → Stored w.store b)
  | .storePut _ req => fun result => ∀ res hashed, result = .ok (res, hashed) →
    Stored w.store req.key ∧ content.Described req.key res.size res.checksumSHA256
  | .storeGet _ ref => fun result => ∀ r info, result = .ok (r, info) →
    r = ⟨content ref.key, none⟩ ∧ Stored w.store ref.key ∧
      content.Described ref.key info.size info.checksumSHA256
  | .storeHead _ ref => fun result => ∀ info, result = .ok info → Stored w.store ref.key
  | .createMultipart _ req => fun result => ∀ upload, result = .ok upload → upload.key = req.key
  | .uploadPart _ req => fun result => ∀ part, result = .ok part →
    1 ≤ req.partNumber ∧ part.partNumber = req.partNumber
  | .completeMultipart _ req => fun result => ∀ res, result = .ok res →
    Stored w.store req.upload.key ∧ content.Described req.upload.key res.size res.checksumSHA256
  | _ => fun _ => True

end

theorem perform_keeps (inv : Consistent content w) {omitted : Omission}
    (complete : content.told → omitted = {}) (c : Call)
    (respects : Respects content guarded w (.call c)) :
    Consistent content (perform omitted w c).2 ∧ Keeps content guarded w (perform omitted w c).2 ∧
      CallLearns content (perform omitted w c).2 c (perform omitted w c).1 := by
  cases c with
  | cacheGet ctx b =>
    obtain ⟨kept, keeps⟩ := cacheGet_keeps guarded inv b w.clock
    refine ⟨kept, keeps, fun r md ok => ?_⟩
    obtain ⟨held, found, rfl⟩ := inv.steady.get_ok ok
    rw [(inv.cached b held found).1]
  | cachePut ctx b r opts =>
    obtain ⟨rfl, lasting, stored⟩ := respects
    obtain ⟨kept, keeps⟩ := cachePut_keeps guarded inv lasting stored w.clock
    exact ⟨kept, keeps, fun ok => .inl ⟨_, (inv.steady.put ok).1, rfl⟩⟩
  | cacheEvict ctx b =>
    obtain ⟨kept, keeps⟩ := cacheEvict_keeps inv respects
    exact ⟨kept, keeps, trivial⟩
  | statusGet ctx b =>
    refine ⟨inv, .refl w, fun status found => ?_⟩
    exact inv.rows b status (Except.ok.inj found)
  | statusPut ctx status =>
    exact ⟨statusPut_keeps inv respects.1 respects.2, .setStatus, trivial⟩
  | markDurable ctx b versionID size checksum durableAt =>
    exact ⟨markDurable_keeps inv respects.1 respects.2 versionID durableAt, .setStatus, trivial⟩
  | storePut ctx req =>
    rcases MapStore.put_cases omitted w.clock w.store req with ⟨err, failed⟩ | ⟨object, _, data, _, _, put⟩
    · simp only [perform, Store.put, failed]
      exact ⟨inv, .refl w, fun _ _ impossible => by contradiction⟩
    · have right : object.data = content req.key := data.trans (congrArg Reader.data respects)
      have extended := insert_extends inv right
      simp only [perform, Store.put, put]
      refine ⟨inv.setStore extended, .setStore extended, fun res hashed ok => ?_⟩
      cases ok
      exact ⟨⟨object, by simp⟩, describes_result complete req.key right⟩
  | storeGet ctx ref =>
    simp only [perform, Store.get, MapStore.get]
    split
    · exact ⟨inv, .refl w, fun _ _ impossible => by contradiction⟩
    · rename_i object found
      have right := inv.objects ref.key object found
      refine ⟨inv, .refl w, fun r info ok => ?_⟩
      cases ok
      exact ⟨by rw [right], ⟨object, found⟩, describes_info complete ref.key right⟩
  | storeHead ctx ref =>
    simp only [perform, Store.head, MapStore.head]
    split
    · exact ⟨inv, .refl w, fun _ impossible => by contradiction⟩
    · rename_i object found
      exact ⟨inv, .refl w, fun _ _ => ⟨object, found⟩⟩
  | createMultipart ctx req =>
    have extended := uploads_extends inv ⟨req.key, w.store.newID⟩ (some [])
      (w.store.issued + 1) (by rintro parts ⟨⟩; simp)
    refine ⟨inv.setStore extended, .setStore extended, fun upload ok => ?_⟩
    cases ok
    rfl
  | uploadPart ctx req =>
    rcases MapStore.uploadPart_cases w.store req with ⟨err, failed⟩ | ⟨parts, positive, found, sent⟩
    · simp only [perform, Store.uploadPart, failed]
      exact ⟨inv, .refl w, fun _ impossible => by contradiction⟩
    · have extended := uploads_extends inv req.upload
        (some ((req.partNumber, req.body) :: parts)) w.store.issued (by
          rintro _ ⟨⟩ part member
          rcases List.mem_cons.mp member with rfl | earlier
          · exact ⟨positive, respects positive⟩
          · exact inv.parts req.upload parts found part earlier)
      simp only [perform, Store.uploadPart, sent]
      refine ⟨inv.setStore extended, .setStore extended, fun part ok => ?_⟩
      cases ok
      exact ⟨positive, rfl⟩
  | completeMultipart ctx req =>
    rcases MapStore.completeMultipart_cases omitted w.clock w.store req with
      ⟨err, failed⟩ | ⟨parts, object, found, assembled, completed⟩
    · simp only [perform, Store.completeMultipart, failed]
      exact ⟨inv, .refl w, fun _ impossible => by contradiction⟩
    · have right := assemble_content inv respects found assembled
      have inserted := insert_extends inv right
      have extended := uploads_extends (inv.setStore inserted) req.upload none
        (w.store.issued + 1) (by simp)
      simp only [perform, Store.completeMultipart, completed]
      refine ⟨(inv.setStore inserted).setStore extended,
        (Keeps.setStore inserted).trans (.setStore extended), fun res ok => ?_⟩
      cases ok
      exact ⟨⟨object, by simp⟩, describes_result complete req.upload.key right⟩
  | abortMultipart upload =>
    have extended := uploads_extends inv upload none w.store.issued (by simp)
    exact ⟨inv.setStore extended, .setStore extended, trivial⟩

section
variable (content)

/-- What a reply says about the world it leaves. -/
def Learns (w : Node) : (q : Request) → q.Reply → Prop
  | .call c => fun reply => ∃ result, reply = .returned result ∧ CallLearns content w c result
  | .join .restore b => fun reply => ∃ n flight, (reply = .leads n ∨ reply = .waits n) ∧
    w.flight .restore n = some flight ∧ flight.blobID = b
  | .await .restore _ n => fun reply => ∀ flight, reply = .ok flight →
    w.flight .restore n = some flight ∧ FlightSound content w.store flight
  | .publish .restore n _ _ _ => fun _ => ∀ flight, w.flight .restore n = some flight →
    FlightSound content w.store flight
  | _ => fun _ => True

end

section Accesses

section
variable (inv : Consistent content w)
include inv

/-- Accesses to the other table do not matter. -/
private theorem promoteFlights_keeps (flights : Flights) :
    Consistent content (w.setFlights .promote flights) ∧
      Keeps content guarded w (w.setFlights .promote flights) :=
  ⟨{ inv with }, { (Keeps.refl w : Keeps content guarded w w) with }⟩

private theorem lead_keeps (b : String) :
    Consistent content (w.lead .restore b) ∧ Keeps content guarded w (w.lead .restore b) := by
  have old : ∀ n flight, w.flight .restore n = some flight →
      (w.lead .restore b).flight .restore n = some flight := by
    intro n flight found
    have inside := (List.getElem?_eq_some_iff.mp found).1
    rw [flight_lead, if_neg (by omega), found]
  refine ⟨{ inv with keyed := ?_, landed := ?_ }, ?_⟩
  · intro other n found
    rw [inflight_lead] at found
    split at found
    · rename_i same
      cases found
      exact ⟨{ blobID := b }, by simp [flight_lead], same.2.symm⟩
    · obtain ⟨flight, found', named⟩ := inv.keyed other n found
      exact ⟨flight, old n flight found', named⟩
  · intro n flight found closed
    rw [flight_lead] at found
    split at found
    · cases found
      contradiction
    · exact inv.landed n flight found closed
  · exact { (Keeps.refl w : Keeps content guarded w w) with
      flights := fun n flight found => ⟨flight, old n flight found, rfl, fun sound => sound⟩ }

/-- A call record may be changed as long as its blob stays, a closed one stays
sound, and a sound one does. -/
private theorem modifyCall_keeps (i : Nat) (f : Flight → Flight)
    (named : ∀ flight, (f flight).blobID = flight.blobID)
    (closed : ∀ flight, w.flight .restore i = some flight → (f flight).done = true →
      FlightSound content w.store (f flight))
    (sound : ∀ flight, w.flight .restore i = some flight → FlightSound content w.store flight →
      FlightSound content w.store (f flight)) :
    Consistent content (w.modifyCall .restore i f) ∧
      Keeps content guarded w (w.modifyCall .restore i f) := by
  refine ⟨{ inv with keyed := ?_, landed := ?_ }, ?_⟩
  · intro b n found
    rw [inflight_modifyCall] at found
    obtain ⟨flight, found', rfl⟩ := inv.keyed b n found
    rw [flight_modifyCall]
    split
    · exact ⟨f flight, by simp [found'], named flight⟩
    · exact ⟨flight, found', rfl⟩
  · intro n flight found done
    rw [flight_modifyCall] at found
    split at found
    · rename_i same
      obtain ⟨before, found', rfl⟩ := Option.map_eq_some_iff.mp found
      exact closed before (same.2 ▸ found') done
    · exact inv.landed n flight found done
  · refine { (Keeps.refl w : Keeps content guarded w w) with flights := fun n flight found => ?_ }
    rw [flight_modifyCall]
    split
    · rename_i same
      exact ⟨f flight, by simp [found], named flight, sound flight (same.2 ▸ found)⟩
    · exact ⟨flight, found, rfl, fun sound => sound⟩

private theorem delete_keeps (b : String) :
    Consistent content (w.delete .restore b) ∧ Keeps content guarded w (w.delete .restore b) := by
  refine ⟨{ inv with keyed := ?_, landed := ?_ }, ?_⟩
  · intro other n found
    rw [inflight_delete] at found
    split at found
    · contradiction
    · simpa only [flight_delete] using inv.keyed other n found
  · intro n flight found
    rw [flight_delete] at found
    exact inv.landed n flight found
  · refine { (Keeps.refl w : Keeps content guarded w w) with flights := fun n flight found => ?_ }
    exact ⟨flight, (flight_delete ..).trans found, rfl, fun sound => sound⟩

end

/-- An error says nothing. -/
private theorem failure_callLearns {c : Call} {result : c.Result} (failed : c.failure err = some result)
    (w : Node) : CallLearns content w c result := by
  cases c <;> cases failed <;> simp [CallLearns]

theorem Plain.returned {fault : Fault MapStore} (plain : Plain told fault) {c : Call}
    {reply : Outcome c.Result} (served : serve fault w (.call c) = some (reply, w')) :
    ∃ result, reply = .returned result := by
  obtain ⟨weather, trouble⟩ := fault
  cases trouble with
  | calm => cases served; exact ⟨_, rfl⟩
  | panics message applied => exact absurd rfl (plain.2 message applied)
  | fails err applied =>
    obtain ⟨result, _, answered⟩ := Option.map_eq_some_iff.mp served
    cases answered
    exact ⟨_, rfl⟩

theorem call_keeps (inv : Consistent content w) {fault : Fault MapStore} (plain : Plain content.told fault)
    {c : Call} {reply : Outcome c.Result} (respects : Respects content guarded w (.call c))
    (served : serve fault w (.call c) = some (reply, w')) :
    Consistent content w' ∧ Keeps content guarded w w' ∧ Learns content w' (.call c) reply := by
  obtain ⟨weather, trouble⟩ := fault
  obtain ⟨complete, calm⟩ := plain
  obtain ⟨kept, keeps, learned⟩ := perform_keeps inv complete c respects
  cases trouble with
  | calm =>
    cases served
    exact ⟨kept, keeps, _, rfl, learned⟩
  | panics message applied => exact absurd rfl (calm message applied)
  | fails err applied =>
    obtain ⟨result, failed, answered⟩ := Option.map_eq_some_iff.mp served
    cases answered
    split
    · exact ⟨kept, keeps, result, rfl, failure_callLearns failed _⟩
    · exact ⟨inv, .refl w, result, rfl, failure_callLearns failed _⟩

theorem access_keeps (inv : Consistent content w) {fault : Fault MapStore} {q : Request}
    (own : ∀ c, q ≠ .call c) {reply : q.Reply} (respects : Respects content guarded w q)
    (served : serve fault w q = some (reply, w')) :
    Consistent content w' ∧ Keeps content guarded w w' ∧ Learns content w' q reply := by
  cases q with
  | call c => exact absurd rfl (own c)
  | join table b =>
    simp only [serve] at served
    split at served
    · rename_i n found
      cases served
      refine ⟨inv, .refl w, ?_⟩
      cases table with
      | promote => trivial
      | restore =>
        obtain ⟨flight, found, named⟩ := inv.keyed b n found
        exact ⟨n, flight, .inr rfl, found, named⟩
    · cases served
      cases table with
      | promote =>
        obtain ⟨kept, keeps⟩ := promoteFlights_keeps inv _
        exact ⟨kept, keeps, trivial⟩
      | restore =>
        obtain ⟨kept, keeps⟩ := lead_keeps inv b
        exact ⟨kept, keeps, _, { blobID := b }, .inl rfl, by simp [flight_lead], rfl⟩
  | await table ctx n =>
    simp only [serve] at served
    split at served
    · rename_i flight _ found
      split at served
      · rename_i closed
        cases served
        refine ⟨inv, .refl w, ?_⟩
        cases table with
        | promote => trivial
        | restore =>
          intro flight same
          cases same
          exact ⟨found, inv.landed n _ found closed⟩
      · contradiction
    · cases served
      refine ⟨inv, .refl w, ?_⟩
      cases table with
      | promote => trivial
      | restore => exact fun _ impossible => by contradiction
    · contradiction
  | publish table n err body info =>
    cases served
    cases table with
    | promote =>
      obtain ⟨kept, keeps⟩ := promoteFlights_keeps inv _
      exact ⟨kept, keeps, trivial⟩
    | restore =>
      obtain ⟨kept, keeps⟩ := modifyCall_keeps inv n (.publish err body info) (fun _ => rfl)
        (fun flight found _ => respects flight found) (fun flight found _ => respects flight found)
      refine ⟨kept, keeps, fun flight found => ?_⟩
      rw [flight_modifyCall, if_pos ⟨rfl, rfl⟩] at found
      obtain ⟨before, present, rfl⟩ := Option.map_eq_some_iff.mp found
      exact respects before present
  | closeDone table n =>
    cases served
    cases table with
    | promote =>
      obtain ⟨kept, keeps⟩ := promoteFlights_keeps inv _
      exact ⟨kept, keeps, trivial⟩
    | restore =>
      obtain ⟨kept, keeps⟩ := modifyCall_keeps inv n .close (fun _ => rfl)
        (fun flight found _ => respects flight found) (fun flight found _ => respects flight found)
      exact ⟨kept, keeps, trivial⟩
  | delete table b =>
    cases served
    cases table with
    | promote =>
      obtain ⟨kept, keeps⟩ := promoteFlights_keeps inv _
      exact ⟨kept, keeps, trivial⟩
    | restore =>
      obtain ⟨kept, keeps⟩ := delete_keeps inv b
      exact ⟨kept, keeps, trivial⟩
  | go fill =>
    cases served
    refine ⟨{ inv with fills := fun other member => ?_ },
      { (Keeps.refl w : Keeps content guarded w w) with }, trivial⟩
    rcases List.mem_append.mp member with old | new
    · exact inv.fills other old
    · obtain rfl := List.mem_singleton.mp new
      exact respects
  | lifecycleErr => cases served; exact ⟨inv, .refl w, trivial⟩
  | now => cases served; exact ⟨inv, .refl w, trivial⟩

end Accesses

theorem serve_keeps (inv : Consistent content w) {fault : Fault MapStore} (plain : Plain content.told fault)
    {q : Request} {reply : q.Reply} (respects : Respects content guarded w q)
    (served : serve fault w q = some (reply, w')) :
    Consistent content w' ∧ Keeps content guarded w w' ∧ Learns content w' q reply := by
  by_cases own : ∃ c, q = .call c
  · obtain ⟨c, rfl⟩ := own
    exact call_keeps inv plain respects served
  · exact access_keeps inv (fun c same => own ⟨c, same⟩) respects served

end KDrive.Blobio
