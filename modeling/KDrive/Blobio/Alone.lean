import KDrive.Blobio.Consistency
import KDrive.Blobstore.Faithful

/-! One operation at a time. An operation that runs alone has a single run once it is said
how each of its calls goes, and the rules here take it apart: what it leads to, from which
world. -/
namespace KDrive.Blobio
open Go Blobstore Hotcache Interaction

section Rules
variable {W : Type} {E : Executor pipeline W} {w w' : W}

/-- The action returns into `post`. -/
def Leads (E : Executor pipeline W) (x : Action α) (w : W) (post : α → W → Prop) : Prop :=
  ∃ value w', x.run.run E w = some (.ok value, w') ∧ post value w'

variable {post : α → W → Prop}

theorem Leads.pure {value : α} (ends : post value w) : Leads E (pure value) w post :=
  ⟨value, w, rfl, ends⟩

theorem Leads.bind {x : Action α} {f : α → Action β} {post : β → W → Prop}
    (first : Leads E x w fun value w' => Leads E (f value) w' post) :
    Leads E (x >>= f) w post := by
  obtain ⟨value, w₁, ran, result, w₂, continued, ends⟩ := first
  refine ⟨result, w₂, ?_, ends⟩
  have whole := run_bind E x.run (ExceptT.bindCont f) w
  rw [ran] at whole
  exact whole.trans continued

theorem Leads.mono {x : Action α} {post stronger : α → W → Prop} (leads : Leads E x w stronger)
    (implies : ∀ value w', stronger value w' → post value w') : Leads E x w post := by
  obtain ⟨value, w', ran, holds⟩ := leads
  exact ⟨value, w', ran, implies value w' holds⟩

theorem Leads.recovered {x : Action α} (leads : Leads E x w post) :
    Leads E (recovered x) w fun result w' => ∃ value, result = .ok value ∧ post value w' := by
  obtain ⟨value, w', ran, holds⟩ := leads
  refine ⟨.ok value, w', ?_, value, rfl, holds⟩
  have whole := run_bind E x.run (fun result => .ret (Except.ok (ε := String) result)) w
  rw [ran] at whole
  exact whole

theorem Leads.call {c : Call} {f : c.Result → Action α} {result : c.Result}
    (served : E w (.call c) = some (.returned result, w')) (next : Leads E (f result) w' post) :
    Leads E (call c >>= f) w post := by
  refine Leads.bind ⟨result, w', ?_, next⟩
  exact run_request (I := pipeline) served

theorem Leads.access {q : Request} {f : q.Reply → Action α} {reply : q.Reply}
    (served : E w q = some (reply, w')) (next : Leads E (f reply) w' post) :
    Leads E (access q >>= f) w post := by
  refine Leads.bind ⟨reply, w', ?_, next⟩
  exact run_request (I := pipeline) served

/-- The run is the only one. -/
theorem Leads.of_run {x : Action α} (leads : Leads E x w post)
    (ran : x.run.run E w = some (.ok value, w')) : post value w' := by
  obtain ⟨value', w'', ran', holds⟩ := leads
  cases ran.symm.trans ran'
  exact holds

end Rules

/-- The flight tables are as they were, but for calls that have landed. -/
def SameFlights (before after : Table → Flights) : Prop :=
  ∀ table b, (after table).inflight b = (before table).inflight b

/-- A leader's own flight leaves the tables as they were. -/
theorem sameFlights_flight {C S : Type} {w w₁ : World C S} {table : Table} {b : String}
    (free : (w.flights table).inflight b = none) (same : w₁.flights = (w.lead table b).flights)
    (n : Nat) (f g : Flight → Flight) : SameFlights w.flights
      (((w₁.modifyCall table n f).modifyCall table n g).delete table b).flights := by
  intro other x
  rw [inflight_delete]
  split
  · rename_i here
    obtain ⟨rfl, rfl⟩ := here
    exact free.symm
  · rename_i elsewhere
    rw [inflight_modifyCall, inflight_modifyCall, same, inflight_lead, if_neg elsewhere]

section Calls
variable {C S : Type} [Cache C] [Store S]

/-- Every call goes as said; the pipeline's own accesses have nothing to go wrong. -/
def alone (faults : Call → Fault S) : Executor pipeline (World C S)
  | w, .call c => serve (faults c) w (.call c)
  | w, q => serve { faults (.cacheEvict .lifecycle "") with trouble := .calm } w q

theorem alone_call (faults : Call → Fault S) (w : World C S) (c : Call) :
    alone faults w (.call c) = match (faults c).trouble with
      | .calm => some (.returned (perform (faults c).weather w c).1,
          (perform (faults c).weather w c).2)
      | .fails err applied => (c.failure err).map fun result =>
          (.returned result, if applied then (perform (faults c).weather w c).2 else w)
      | .panics message applied =>
        if c.recoverable then
          some (.panicked message, if applied then (perform (faults c).weather w c).2 else w)
        else none := rfl

theorem alone_join {faults : Call → Fault S} {w : World C S} {table : Table} {b : String}
    (free : (w.flights table).inflight b = none) : alone faults w (.join table b) =
      some (.leads (w.flights table).calls.length, w.lead table b) := by
  change serve { faults (.cacheEvict .lifecycle "") with trouble := .calm } w (.join table b) = _
  simp only [serve, free]
  rfl

/-- No panic, and errors only from calls that can fail. -/
def Orderly (faults : Call → Fault S) : Prop :=
  ∀ c, (faults c).trouble = .calm ∨
    ∃ err applied result, (faults c).trouble = .fails err applied ∧ c.failure err = some result

/-- What a call may have done when it returns. -/
inductive Went (fault : Fault S) (w : World C S) (c : Call) : c.Result → World C S → Prop where
  | performed : fault.trouble = .calm →
      Went fault w c (perform fault.weather w c).1 (perform fault.weather w c).2
  | failed (err : GoError) : fault.trouble ≠ .calm → c.failure err = some result →
      w' = w ∨ w' = (perform fault.weather w c).2 → Went fault w c result w'

/-- A result and a store, where the store's own operation would give `own`: that, or an
error in its place. -/
def Obtained (fault : Fault S) (own : Except GoError β × S) (result : Except GoError β)
    (store : S) : Prop :=
  fault.trouble = .calm ∧ own = (result, store) ∨
    fault.trouble ≠ .calm ∧ ∃ err, result = .error err

theorem Obtained.ok {fault : Fault S} {own : Except GoError β × S}
    (obtained : Obtained fault own (.ok value) store) : own = (.ok value, store) := by
  rcases obtained with ⟨_, same⟩ | ⟨_, err, impossible⟩
  · exact same
  · contradiction

theorem Obtained.calm {fault : Fault S} {own : Except GoError β × S}
    (obtained : Obtained fault own result store) (calm : fault.trouble = .calm) :
    own = (result, store) := by
  rcases obtained with ⟨_, same⟩ | ⟨noisy, _⟩
  · exact same
  · exact absurd calm noisy

variable {faults : Call → Fault S} {w : World C S} (orderly : Orderly faults)
include orderly

theorem Leads.went {c : Call} {f : c.Result → Action α} {post : α → World C S → Prop}
    (next : ∀ result w', Went (faults c) w c result w' → Leads (alone faults) (f result) w' post) :
    Leads (alone faults) (Blobio.call c >>= f) w post := by
  rcases orderly c with calm | ⟨err, applied, result, fails, failure⟩
  · have served : alone faults w (.call c) = some (.returned (perform (faults c).weather w c).1,
        (perform (faults c).weather w c).2) := by
      rw [alone_call, calm]
    exact Leads.call served (next _ _ (.performed calm))
  · have noisy : (faults c).trouble ≠ .calm := by
      rw [fails]
      exact Trouble.noConfusion
    cases applied with
    | false =>
      have served : alone faults w (.call c) = some (.returned result, w) := by
        rw [alone_call, fails]
        simp only [failure, Option.map_some, Bool.false_eq_true, if_false]
      exact Leads.call served (next _ _ (.failed err noisy failure (.inl rfl)))
    | true =>
      have served : alone faults w (.call c) =
          some (.returned result, (perform (faults c).weather w c).2) := by
        rw [alone_call, fails]
        simp only [failure, Option.map_some, if_true]
      exact Leads.call served (next _ _ (.failed err noisy failure (.inr rfl)))

section StoreCalls
variable {post : α → World C S → Prop} {ctx : Context}

theorem Leads.storeCall {c : Call} {f : c.Result → Action α} {own : c.Result × S}
    (shape : perform (faults c).weather w c = (own.1, { w with store := own.2 }))
    (next : ∀ result store, (faults c).trouble = .calm ∧ own = (result, store) ∨
        (faults c).trouble ≠ .calm ∧ (∃ err, c.failure err = some result) →
      Leads (alone faults) (f result) { w with store } post) :
    Leads (alone faults) (Blobio.call c >>= f) w post := by
  refine Leads.went orderly fun result w' went => ?_
  cases went with
  | performed calm =>
    rw [shape]
    exact next _ _ (.inl ⟨calm, rfl⟩)
  | failed err noisy failure after =>
    rw [shape] at after
    rcases after with rfl | rfl
    · exact next result w'.store (.inr ⟨noisy, err, failure⟩)
    · exact next result own.2 (.inr ⟨noisy, err, failure⟩)

theorem Leads.storePut {req : PutRequest} {f : Except GoError (PutResult × Bytes) → Action α}
    (next : ∀ result store, Obtained (faults (.storePut ctx req))
        (Store.put (faults (.storePut ctx req)).weather w.clock w.store req) result store →
      Leads (alone faults) (f result) { w with store } post) :
    Leads (alone faults) (Blobio.call (.storePut ctx req) >>= f) w post :=
  Leads.storeCall orderly rfl fun result store obtained => next result store <|
    obtained.imp_right fun ⟨noisy, err, failure⟩ => ⟨noisy, err, (Option.some.inj failure).symm⟩

theorem Leads.storeHead {ref : ObjectRef} {f : Except GoError ObjectMeta → Action α}
    (next : ∀ result store, Obtained (faults (.storeHead ctx ref))
        (Store.head (faults (.storeHead ctx ref)).weather w.store ref) result store →
      Leads (alone faults) (f result) { w with store } post) :
    Leads (alone faults) (Blobio.call (.storeHead ctx ref) >>= f) w post :=
  Leads.storeCall orderly rfl fun result store obtained => next result store <|
    obtained.imp_right fun ⟨noisy, err, failure⟩ => ⟨noisy, err, (Option.some.inj failure).symm⟩

theorem Leads.createMultipart {req : MultipartRequest}
    {f : Except GoError MultipartUpload → Action α}
    (next : ∀ result store, Obtained (faults (.createMultipart ctx req))
        (Store.createMultipart (faults (.createMultipart ctx req)).weather w.store req)
        result store → Leads (alone faults) (f result) { w with store } post) :
    Leads (alone faults) (Blobio.call (.createMultipart ctx req) >>= f) w post :=
  Leads.storeCall orderly rfl fun result store obtained => next result store <|
    obtained.imp_right fun ⟨noisy, err, failure⟩ => ⟨noisy, err, (Option.some.inj failure).symm⟩

theorem Leads.uploadPart {req : UploadPartRequest} {f : Except GoError UploadedPart → Action α}
    (next : ∀ result store, Obtained (faults (.uploadPart ctx req))
        (Store.uploadPart (faults (.uploadPart ctx req)).weather w.store req) result store →
      Leads (alone faults) (f result) { w with store } post) :
    Leads (alone faults) (Blobio.call (.uploadPart ctx req) >>= f) w post :=
  Leads.storeCall orderly rfl fun result store obtained => next result store <|
    obtained.imp_right fun ⟨noisy, err, failure⟩ => ⟨noisy, err, (Option.some.inj failure).symm⟩

theorem Leads.completeMultipart {req : CompleteRequest} {f : Except GoError PutResult → Action α}
    (next : ∀ result store, Obtained (faults (.completeMultipart ctx req))
        (Store.completeMultipart (faults (.completeMultipart ctx req)).weather w.clock w.store req)
        result store → Leads (alone faults) (f result) { w with store } post) :
    Leads (alone faults) (Blobio.call (.completeMultipart ctx req) >>= f) w post :=
  Leads.storeCall orderly rfl fun result store obtained => next result store <|
    obtained.imp_right fun ⟨noisy, err, failure⟩ => ⟨noisy, err, (Option.some.inj failure).symm⟩

theorem Leads.abortMultipart {upload : MultipartUpload} {f : Option GoError → Action α}
    (next : ∀ result store, Leads (alone faults) (f result) { w with store } post) :
    Leads (alone faults) (Blobio.call (.abortMultipart upload) >>= f) w post :=
  Leads.storeCall orderly rfl fun result store _ => next result store

end StoreCalls

section OtherCalls
variable {post : α → World C S → Prop} {ctx : Context} {b : String}

/-- The cache has no failures of its own. -/
theorem Leads.cacheGet {f : Except GoError (Reader × Metadata) → Action α}
    (next : Leads (alone faults) (f (Cache.get w.cache b w.clock).1)
      { w with cache := (Cache.get w.cache b w.clock).2 } post) :
    Leads (alone faults) (Blobio.call (.cacheGet ctx b) >>= f) w post := by
  refine Leads.went orderly fun result w' went => ?_
  cases went with
  | performed _ => exact next
  | failed err noisy failure after => contradiction

theorem Leads.cachePut {r : Reader} {opts : PutOptions} {f : Option GoError → Action α}
    (next : Leads (alone faults) (f (Cache.put w.cache b r opts w.clock).1)
      { w with cache := (Cache.put w.cache b r opts w.clock).2 } post) :
    Leads (alone faults) (Blobio.call (.cachePut ctx b r opts) >>= f) w post := by
  refine Leads.went orderly fun result w' went => ?_
  cases went with
  | performed _ => exact next
  | failed err noisy failure after => contradiction

theorem Leads.statusGet {f : Except GoError (Option BlobStatus) → Action α}
    (next : ∀ result, result = .ok (w.status b) ∨
        (faults (.statusGet ctx b)).trouble ≠ .calm ∧ (∃ err, result = .error err) →
      Leads (alone faults) (f result) w post) :
    Leads (alone faults) (Blobio.call (.statusGet ctx b) >>= f) w post := by
  refine Leads.went orderly fun result w' went => ?_
  cases went with
  | performed _ => exact next _ (.inl rfl)
  | failed err noisy failure after =>
    cases failure
    rcases after with rfl | rfl
    · exact next _ (.inr ⟨noisy, err, rfl⟩)
    · exact next _ (.inr ⟨noisy, err, rfl⟩)

/-- A row that is said to be marked is; one that is not may be. -/
theorem Leads.markDurable {versionID checksum : String} {size : Int} {durableAt : Time}
    {f : Option GoError → Action α}
    (marked : Leads (alone faults) (f none)
      { w with status := markDurable w.status b versionID size checksum durableAt } post)
    (failed : ∀ err status,
      (faults (.markDurable ctx b versionID size checksum durableAt)).trouble ≠ .calm →
      (status = w.status ∨ status = Blobio.markDurable w.status b versionID size checksum durableAt) →
      Leads (alone faults) (f (some err)) { w with status } post) :
    Leads (alone faults)
      (Blobio.call (.markDurable ctx b versionID size checksum durableAt) >>= f) w post := by
  refine Leads.went orderly fun result w' went => ?_
  cases went with
  | performed _ => exact marked
  | failed err noisy failure after =>
    cases failure
    rcases after with rfl | rfl
    · exact failed err _ noisy (.inl rfl)
    · exact failed err _ noisy (.inr rfl)

end OtherCalls
end Calls
end KDrive.Blobio
