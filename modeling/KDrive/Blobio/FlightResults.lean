import KDrive.Blobio.SingleFlight

/-! What the callers of a flight return: each operation under the single-flight
discipline, for any cache and any store. -/
namespace KDrive.Blobio
open Go Blobstore Hotcache Interaction

def Request.joins (t : Table) (b : String) : Request → Bool
  | .join table key => table = t && key = b
  | _ => false

/-- An operation with this history looked for the flight of `b` in table `t`. -/
def Joins (t : Table) (b : String) (history : History pipeline) : Bool :=
  history.any fun event => Request.joins t b event.request

/-- An operation with this history is the leader of flight `n` of `b`, or waited for it. -/
def Aboard (t : Table) (b : String) (n : Nat) (history : History pipeline) : Prop :=
  (⟨.join t b, .leads n⟩ : Event pipeline) ∈ history ∨
    (⟨.join t b, .waits n⟩ : Event pipeline) ∈ history

theorem Aboard.mono {history full : History pipeline} (joined : Aboard t b n history)
    (longer : history <+: full) : Aboard t b n full :=
  joined.imp (fun led => longer.subset led) fun waited => longer.subset waited

theorem aboard_leads {t : Table} {history : History pipeline} :
    Aboard t b n (history ++ [⟨.join t b, .leads n⟩]) :=
  .inl (List.mem_append_right _ (List.mem_singleton_self _))

theorem aboard_waits {t : Table} {history : History pipeline} :
    Aboard t b n (history ++ [⟨.join t b, .waits n⟩]) :=
  .inr (List.mem_append_right _ (List.mem_singleton_self _))

section Rules
variable {C S : Type} [Cache C] [Store S] (calm : Prop) (cfg : Config) (opens : Operation → Prop)
  (admits : Admission pipeline (World C S) Operation) (op : Stamped Operation)

abbrev Reports (x : Action α) (history : History pipeline) (w : Log C S)
    (post : History pipeline → α → Log C S → Prop) : Prop :=
  Returns (machine C S cfg NoPanic opens admits).logged (singleFlight calm cfg C S) op x history w post

variable {calm cfg opens admits op} {w : Log C S} {history : History pipeline}
  (keeps : calm → ∀ op history w q reply, admits op history w q reply → ¬ Recaches w q)
include keeps

variable {post : History pipeline → α → Log C S → Prop}

/-- A call, with the world it was served in. -/
theorem Reports.call_bind {c : Call} {f : c.Result → Action α}
    (next : ∀ w₁ fault result now, Advances calm cfg w w₁ →
      serve fault w₁.now (.call c) = some (.returned result, now) →
      Honest calm cfg (w₁.advance (some ⟨op, .call c, .returned result⟩) now) →
      Advances calm cfg w (w₁.advance (some ⟨op, .call c, .returned result⟩) now) →
      Reports calm cfg opens admits op (f result) (history ++ [⟨.call c, .returned result⟩])
        (w₁.advance (some ⟨op, .call c, .returned result⟩) now) post) :
    Reports calm cfg opens admits op (call c >>= f) history w post := by
  refine Returns.call_bind fun w₁ rely inv reply w₂ admitted handled => ?_
  obtain ⟨now, ⟨⟨fault, quiet⟩, served⟩, rfl⟩ := handled
  obtain ⟨changes, result, rfl⟩ := call_changes quiet
    (fun settled => keeps settled op.op history w₁.now _ _ admitted) served
  obtain ⟨kept, advances⟩ := changes.advances inv (some ⟨op, .call c, .returned result⟩)
  exact ⟨kept, advances, result, rfl, next w₁ fault result now rely served kept
    (singleFlight_coherent.trans rely advances)⟩

theorem Reports.call_last {c : Call} {post : History pipeline → c.Result → Log C S → Prop}
    (ends : ∀ w₁ result now w', Advances calm cfg w w₁ →
      Advances calm cfg (w₁.advance (some ⟨op, .call c, .returned result⟩) now) w' →
      post (history ++ [⟨.call c, .returned result⟩]) result w') :
    Reports calm cfg opens admits op (call c) history w post := by
  refine Ensures.call fun w₁ rely inv reply w₂ admitted handled => ?_
  obtain ⟨now, ⟨⟨fault, quiet⟩, served⟩, rfl⟩ := handled
  obtain ⟨changes, result, rfl⟩ := call_changes quiet
    (fun settled => keeps settled op.op history w₁.now _ _ admitted) served
  obtain ⟨kept, advances⟩ := changes.advances inv (some ⟨op, .call c, .returned result⟩)
  exact ⟨kept, advances, fun w₃ later _ => ⟨result, rfl, ends w₁ result now w₃ rely later⟩⟩

/-- A call whose answer does not matter. -/
theorem Reports.call_any {c : Call} {f : c.Result → Action α}
    (next : ∀ w' result, Advances calm cfg w w' → Honest calm cfg w' →
      Reports calm cfg opens admits op (f result) (history ++ [⟨.call c, .returned result⟩]) w' post) :
    Reports calm cfg opens admits op (call c >>= f) history w post :=
  Reports.call_bind keeps fun _ _ result _ _ _ inv advances => next _ result advances inv

omit keeps in
theorem Reports.access_bind {q : Request} (own : ∀ c, q ≠ .call c) {f : q.Reply → Action α}
    (permits : ∀ w', Advances calm cfg w w' → Honest calm cfg w' → Permits calm cfg w' q)
    (next : ∀ w₁ fault (reply : q.Reply) now, Advances calm cfg w w₁ → Honest calm cfg w₁ →
      serve fault w₁.now q = some (reply, now) →
      Honest calm cfg (w₁.advance (some ⟨op, q, reply⟩) now) →
      Advances calm cfg w (w₁.advance (some ⟨op, q, reply⟩) now) →
      Reports calm cfg opens admits op (f reply) (history ++ [⟨q, reply⟩])
        (w₁.advance (some ⟨op, q, reply⟩) now) post) :
    Reports calm cfg opens admits op (access q >>= f) history w post := by
  refine Returns.access_bind fun w₁ rely inv reply w₂ _ handled => ?_
  obtain ⟨now, ⟨⟨fault, quiet⟩, served⟩, rfl⟩ := handled
  obtain ⟨kept, advances⟩ := (access_changes own (permits w₁ rely inv) served).advances inv
    (some ⟨op, q, reply⟩)
  exact ⟨kept, advances, next w₁ fault reply now rely inv served kept
    (singleFlight_coherent.trans rely advances)⟩

omit keeps in
/-- What an action returned is what it returns when replayed on the log. -/
theorem Reports.tracked {x : Action α}
    (reports : Reports calm cfg opens admits op x history w post) :
    Reports calm cfg opens admits op x history w fun full value w' => post full value w' ∧
      history <+: full ∧ ∃ work, Replays x.run work (.ok value) ∧
        (w.deeds ++ work.map (Deed.mk op)).Sublist w'.deeds := by
  refine Ensures.mono ?_ (Assures.tracked (fun advances => advances.later) reports)
  rintro full result w' inv ⟨⟨value, rfl, holds⟩, extended, work, rfl, replays, logged⟩
  refine ⟨value, rfl, holds, List.prefix_append _ _, work, replays, ?_⟩
  obtain ⟨rest, same⟩ := extended.deeds
  rw [← same, List.drop_left' rfl] at logged
  rw [← same]
  exact logged.append_left _

end Rules

section Uploads
variable {C S : Type} [Cache C] [Store S] {calm : Prop} {cfg : Config} {opens : Operation → Prop}
  {admits : Admission pipeline (World C S) Operation} {op : Stamped Operation}
  {w : Log C S} {history : History pipeline}
  (keeps : calm → ∀ op history w q reply, admits op history w q reply → ¬ Recaches w q)
include keeps

theorem promoteSingle_reports (ctx : Context) (b : String) (r : Reader) (status : BlobStatus) :
    Reports calm cfg opens admits op (promoteSingle ctx b r status) history w fun _ _ _ => True := by
  refine Reports.call_any keeps fun w₁ result _ _ => ?_
  match result with
  | .error err => exact .done
  | .ok (res, hashed) =>
    simp only
    split <;> exact .done

theorem uploadParts_reports (ctx : Context) (target : MultipartUpload) (partSize : Nat) (data : Bytes)
    (parts : List Nat) (history : History pipeline) (w : Log C S) :
    Reports calm cfg opens admits op (uploadParts ctx target partSize data parts) history w
      fun _ _ _ => True := by
  induction parts generalizing history w with
  | nil => exact .done
  | cons i rest ih =>
    refine Reports.call_any keeps fun w₁ result _ inv => ?_
    match result with
    | .error err => exact .done
    | .ok part =>
      refine Returns.bind singleFlight_coherent inv (ih _ w₁) fun _ result _ _ _ _ => ?_
      cases result <;> exact .done

theorem sendParts_reports (inv : Honest calm cfg w) (ctx : Context) (target : MultipartUpload)
    (r : Reader) (status : BlobStatus) :
    Reports calm cfg opens admits op (sendParts ctx target r status) history w fun _ _ _ => True := by
  have completes (parts : List CompletedPart) (missing : Option Int) (history : History pipeline)
      (w : Log C S) : Reports calm cfg opens admits op
        (completeParts ctx target r.data status parts missing) history w fun _ _ _ => True := by
    unfold completeParts
    split
    · exact .done
    · split
      · exact .done
      · refine Reports.call_any keeps fun w₁ result _ _ => ?_
        match result with
        | .error err => exact .done
        | .ok res => exact .done
  refine Returns.bind singleFlight_coherent inv
    (uploadParts_reports keeps ctx target _ r.data _ history w) fun _ result _ _ _ _ => ?_
  match result with
  | .error err => exact .done
  | .ok parts =>
    simp only
    split
    · exact .done
    · exact completes parts _ _ _

theorem sendBody_reports (ctx : Context) (b : String) (r : Reader) (status : BlobStatus) :
    Reports calm cfg opens admits op (sendBody ctx b r status) history w fun _ _ _ => True := by
  unfold sendBody
  split
  · refine Reports.call_any keeps fun w₁ result _ inv => ?_
    match result with
    | .error err => exact .done
    | .ok target =>
      refine Returns.bind singleFlight_coherent inv
        (sendParts_reports keeps inv ctx target r status).recovered fun _ _ w₂ _ _ sent => ?_
      obtain ⟨result, rfl, -⟩ := sent
      match result with
      | .ok res => exact .done
      | .error err =>
        exact Reports.call_any keeps fun _ _ _ _ => .done
  · exact promoteSingle_reports keeps ctx b r status

theorem clearProtection_reports (ctx : Context) (b : String) (status : BlobStatus) :
    Reports calm cfg opens admits op (clearProtection ctx b status) history w fun _ _ _ => True := by
  refine Reports.call_any keeps fun w₁ result _ _ => ?_
  match result with
  | .error err => exact .done
  | .ok (r, md) => exact Reports.call_any keeps fun _ _ _ _ => .done

end Uploads

section Status
variable {C S : Type} [Cache C] [Store S]

theorem join_served {w now : World C S} {table : Table}
    (served : serve fault w (.join table b) = some (joined, now)) :
    (∃ n, joined = .waits n ∧ (w.flights table).inflight b = some n ∧ now = w) ∨
      ∃ n, joined = .leads n ∧ now.flight table n = some { blobID := b } := by
  simp only [serve] at served
  split at served
  · rename_i n inside
    cases served
    exact .inl ⟨n, rfl, inside, rfl⟩
  · cases served
    exact .inr ⟨_, rfl, by rw [flight_lead, if_pos ⟨rfl, rfl⟩]⟩

theorem await_served {w now : World C S} {table : Table}
    (served : serve fault w (.await table ctx n) = some (reply, now)) :
    now = w ∧ ((∃ flight, reply = .ok flight ∧ w.flight table n = some flight ∧ flight.done = true) ∨
      ∃ err, reply = .error err ∧ w.ctxErr ctx = some err) := by
  simp only [serve] at served
  split at served
  · rename_i flight _ found
    split at served
    · rename_i done
      cases served
      exact ⟨rfl, .inl ⟨flight, rfl, found, done⟩⟩
    · contradiction
  · rename_i done
    cases served
    exact ⟨rfl, .inr ⟨_, rfl, done⟩⟩
  · contradiction

/-- A lookup that succeeds tells what is there. -/
theorem statusGet_found {w now : World C S}
    (served : serve fault w (.call (.statusGet ctx b)) = some (.returned (.ok found), now)) :
    now.status b = found := by
  simp only [serve] at served
  split at served
  · cases served
    rfl
  · obtain ⟨result, failed, same⟩ := Option.map_eq_some_iff.mp served
    cases same
    cases failed
  · split at served <;> cases served

theorem markDurable_done {w now : World C S} {size : Int} (present : w.status b ≠ none)
    (served : serve fault w (.call (.markDurable ctx b versionID size checksum durableAt)) =
      some (.returned none, now)) : Durable now b := by
  obtain ⟨row, found⟩ := Option.ne_none_iff_exists'.mp present
  simp only [serve] at served
  split at served
  · cases served
    simp only [Durable, perform, markDurable_apply, found]
    exact ⟨_, rfl, rfl⟩
  · obtain ⟨result, failed, same⟩ := Option.map_eq_some_iff.mp served
    cases same
    cases failed
  · split at served <;> cases served

end Status

section Promotion
variable {C S : Type} [Cache C] [Store S] {calm : Prop} {cfg : Config} {opens : Operation → Prop}
  {admits : Admission pipeline (World C S) Operation} {op : Stamped Operation}
  {w w' : Log C S} {history : History pipeline}
  (keeps : calm → ∀ op history w q reply, admits op history w q reply → ¬ Recaches w q)
include keeps

theorem upload_reports (flown : ∃ flight, w.now.flight .promote n = some flight)
    (present : w.now.status b ≠ none) (ctx : Context) (status : BlobStatus) :
    Reports calm cfg opens admits op (upload ctx b status) history w fun _ err w' =>
      err = none → Achieved calm w'.worlds n b w.past.length := by
  refine Reports.call_any keeps fun w₁ result advances₁ inv₁ => ?_
  match result with
  | .error err => exact Returns.pure fun _ _ _ impossible => by contradiction
  | .ok (r, md) =>
    refine Returns.bind singleFlight_coherent inv₁ (sendBody_reports keeps ctx b r status)
      fun _ result w₂ advances₂ inv₂ _ => ?_
    match result with
    | .error err => exact Returns.pure fun _ _ _ impossible => by contradiction
    | .ok res =>
      refine Reports.call_bind keeps fun w₃ fault result now advances₃ served inv₃ advances => ?_
      have all₁ := singleFlight_coherent.trans advances₁ advances₂
      have all := singleFlight_coherent.trans all₁ advances
      match result, served with
      | some err, _ => exact Returns.pure fun _ _ _ impossible => by contradiction
      | none, served =>
        have row := (singleFlight_coherent.trans all₁ advances₃).rows b present
        have durable := markDurable_done row served
        refine Returns.bind singleFlight_coherent inv₃ (clearProtection_reports keeps ctx b status)
          fun _ _ w₄ advances₄ _ _ => Returns.pure fun w₅ advances₅ _ _ => ?_
        exact durable_achieved (all.flown flown) all durable
          (singleFlight_coherent.trans advances₄ advances₅)

theorem promoteLocked_reports (flown : ∃ flight, w.now.flight .promote n = some flight)
    (ctx : Context) (b : String) :
    Reports calm cfg opens admits op (promoteLocked ctx b) history w fun _ err w' =>
      err = none → Achieved calm w'.worlds n b w.past.length := by
  refine Reports.call_bind keeps fun w₁ fault result now _ served inv₁ advances₁ => ?_
  match result, served with
  | .error err, _ => exact Returns.pure fun _ _ _ impossible => by contradiction
  | .ok none, _ => exact Returns.pure fun _ _ _ impossible => by contradiction
  | .ok (some status), served =>
    have found := statusGet_found served
    have flown₁ := advances₁.flown flown
    have present : now.status b ≠ none := by simp [found]
    simp only
    split
    · rename_i state
      exact Returns.pure fun w' later _ _ =>
        durable_achieved flown₁ advances₁ ⟨status, found, state⟩ later
    · refine Reports.call_any keeps fun w₂ head advances₂ inv₂ => ?_
      split
      · refine Reports.access_bind (by simp) (fun _ _ _ => trivial)
          fun _ _ now _ _ _ _ _ advances₃ => ?_
        refine Reports.call_bind keeps fun w₄ fault result _ advances₄ served _ advances => ?_
        match result, served with
        | some err, _ => exact Returns.pure fun _ _ _ impossible => by contradiction
        | none, served =>
          have here := singleFlight_coherent.trans advances₂ advances₃
          have row := (singleFlight_coherent.trans here advances₄).rows b present
          have all := singleFlight_coherent.trans advances₁ (singleFlight_coherent.trans here advances)
          exact Returns.pure fun w' later _ _ =>
            durable_achieved (all.flown flown) all (markDurable_done row served) later
      · refine (upload_reports keeps (advances₂.flown flown₁) (advances₂.rows b present) ctx
          status).mono fun _ err w' _ achieved none => ?_
        have all := singleFlight_coherent.trans advances₁ advances₂
        exact (achieved none).mono all.later.length

omit keeps in
/-- The leader makes its result known and lands. -/
theorem land_reports {table : Table} {f : Unit → Action α}
    {post : History pipeline → α → Log C S → Prop}
    (flown : ∃ flight, w.now.flight table n = some flight)
    (landed : ∀ w', Advances calm cfg w w' → ∀ flight, w'.now.flight table n = some flight →
      Landed calm cfg w' n (flight.publish err body info) table)
    (next : ∀ full w', history <+: full → Advances calm cfg w w' → Honest calm cfg w' →
      Reports calm cfg opens admits op (f ()) full w' post) :
    Reports calm cfg opens admits op
      (access (.publish table n err body info) >>= fun _ => land table b n >>= f) history w post := by
  refine Reports.access_bind (by simp) (fun w' advances _ => landed w' advances)
    fun w₁ fault _ now advances₁ inv₁ served kept₁ all₁ => ?_
  obtain ⟨before, found⟩ := advances₁.flown flown
  cases served
  -- The published record is sound, and it is still there when it is closed.
  have changes : Changes calm cfg w₁ (w₁.now.modifyCall table n (.publish err body info)) :=
    .modifyCall (fun _ => rfl) (landed w₁ advances₁)
  have published : Landed calm cfg (w₁.advance (some ⟨op, .publish table n err body info, ()⟩)
      (w₁.now.modifyCall table n (.publish err body info))) n (before.publish err body info) table :=
    (landed w₁ advances₁ before found).advance changes found _
  have there : (w₁.now.modifyCall table n (.publish err body info)).flight table n =
      some (before.publish err body info) := by
    rw [flight_modifyCall, if_pos ⟨rfl, rfl⟩, found, Option.map_some]
  have closes : Reports calm cfg opens admits op (land table b n)
      (history ++ [⟨.publish table n err body info, ()⟩])
      (w₁.advance (some ⟨op, .publish table n err body info, ()⟩)
        (w₁.now.modifyCall table n (.publish err body info))) fun _ _ _ => True := by
    refine Reports.access_bind (by simp) (fun w' advances _ flight found' => ?_)
      fun _ _ _ _ _ _ _ _ _ => ?_
    · obtain ⟨same, found'', -, landed⟩ := advances.flights table n _ there
      cases found'.symm.trans found''
      exact landed published
    · exact Reports.access_bind (by simp) (fun _ _ _ => trivial) fun _ _ _ _ _ _ _ _ _ =>
        .done
  exact Returns.bind singleFlight_coherent kept₁ closes.extends fun full _ w' later inv longer =>
    next full w' ((List.prefix_append _ _).trans longer.1) (singleFlight_coherent.trans all₁ later) inv

theorem promote_reports (own : op.op.context = ctx) (late : since ≤ w.past.length) (b : String) :
    Reports calm cfg opens admits op (promote ctx b) history w fun full err w' =>
      (∃ n, Aboard .promote b n full ∧
        ((∃ e, err = some e ∧ w'.now.ctxErr ctx = some e) ∨ Promotes w'.deeds n b err)) ∧
      (err = none → Secured calm w'.worlds since b) := by
  refine Reports.access_bind (by simp) (fun _ _ _ => trivial)
    fun w₁ fault joined now advances₁ inv₁ served kept₁ all₁ => ?_
  rcases join_served served with ⟨n, rfl, inside, rfl⟩ | ⟨n, rfl, found⟩
  · -- A waiter: it was there while the flight was in the table.
    obtain ⟨flight, found, rfl⟩ := inv₁.keyed .promote b n inside
    have moment : (w₁.advance (some ⟨op, .join .promote flight.blobID, .waits n⟩)
        w₁.now).worlds[w₁.past.length]? = some w₁.now := (Logged.Extends.advance w₁ _ _).world w₁.worlds_last
    refine Reports.access_bind (by simp) (fun _ _ _ => trivial)
      fun w₂ fault reply now₂ advances₂ inv₂ served kept₂ all₂ => ?_
    obtain ⟨rfl, ⟨record, rfl, found₂, done⟩ | ⟨err, rfl, cancelled⟩⟩ := await_served served
    · obtain ⟨same, found₂', named, -⟩ := advances₂.flights .promote n flight found
      cases found₂.symm.trans found₂'
      obtain ⟨promotes, achieved⟩ := kept₂.landed .promote n record found₂ done
      rw [named] at promotes achieved
      refine Returns.pure fun w₃ advances₃ _ => ⟨⟨n, aboard_waits.mono (List.prefix_append _ _),
        .inr (promotes.mono advances₃.later.deeds)⟩, ?_⟩
      intro none
      obtain ⟨t, u, -, found, durable, stays⟩ := achieved none
      refine ⟨⟨t, u, Nat.zero_le _, advances₃.later.world found, durable⟩, fun settled => ?_⟩
      have before := late.trans advances₁.later.length
      by_cases early : t ≤ w₁.past.length
      · have here := stays settled _ _ early (all₂.later.world moment) inside
        exact ⟨_, _, before, advances₃.later.world (all₂.later.world moment), here⟩
      · exact ⟨t, u, by omega, advances₃.later.world found, durable⟩
    · exact Returns.pure fun w₃ advances₃ _ =>
        ⟨⟨n, aboard_waits.mono (List.prefix_append _ _),
          .inl ⟨err, rfl, advances₃.cancelled ctx err cancelled⟩⟩, fun impossible => by contradiction⟩
  · -- The leader.
    refine Returns.bind singleFlight_coherent kept₁
      (Returns.recovered (Reports.tracked (promoteLocked_reports keeps ⟨_, found⟩ ctx b)))
      fun _ _ w₂ advances₂ inv₂ result => ?_
    obtain ⟨err, rfl, achieved, longer, work, replays, logged⟩ := result
    obtain ⟨flight₂, found₂, named₂, -⟩ := advances₂.flights .promote n _ found
    have promotes : Promotes w₂.deeds n b err := by
      rw [Logged.deeds_advance, Option.toList_some, List.append_assoc] at logged
      exact ⟨op, work, own ▸ replays, (List.sublist_append_right _ _).trans logged⟩
    refine land_reports ⟨flight₂, found₂⟩ (fun w' later flight' found' => ?_)
      fun _ w₃ longer' advances₃ _ => Returns.pure fun w₄ advances₄ _ => ?_
    · obtain ⟨same, found'', named', -⟩ := later.flights .promote n flight₂ found₂
      cases found'.symm.trans found''
      have key : (flight'.publish err [] {}).blobID = b := named'.trans named₂
      refine ⟨key.symm ▸ promotes.mono later.later.deeds, fun none => ?_⟩
      rw [key]
      exact later.achieved n b 0 flight₂ found₂ ((achieved none).mono (Nat.zero_le _))
    · have later := singleFlight_coherent.trans advances₃ advances₄
      refine ⟨⟨n, aboard_leads.mono (longer.trans longer'),
        .inr (promotes.mono later.later.deeds)⟩, fun none => ?_⟩
      obtain ⟨t, u, start, found, durable, -⟩ := achieved none
      have there := later.later.world found
      exact ⟨⟨t, u, Nat.zero_le _, there, durable⟩,
        fun _ => ⟨t, u, late.trans (all₁.later.length.trans start), there, durable⟩⟩

end Promotion

/-- What Read makes of what was restored. -/
def readResult : Except GoError (Bytes × ObjectMeta) → Except GoError ReadResult
  | .error err => .error err
  | .ok (body, info) => .ok {
      body := ⟨body, none⟩
      size := info.size
      checksumSHA256 := info.checksumSHA256
      versionID := info.versionID
      fromCache := false }

section Operations
variable {C S : Type} [Cache C] [Store S] {calm : Prop} {cfg : Config} {opens : Operation → Prop}
  {admits : Admission pipeline (World C S) Operation} {op : Stamped Operation}
  {w : Log C S} {history : History pipeline}
  (keeps : calm → ∀ op history w q reply, admits op history w q reply → ¬ Recaches w q)
include keeps

theorem restoreFromL2_reports (own : op.op.context = ctx) (b : String) :
    Reports calm cfg opens admits op (restoreFromL2 cfg ctx b) history w fun full result w' =>
      ∃ n, Aboard .restore b n full ∧
        ((∃ err, result = .error err ∧ w'.now.ctxErr ctx = some err) ∨
          Restores cfg w'.deeds n b result) := by
  refine Reports.access_bind (by simp) (fun _ _ _ => trivial)
    fun w₁ fault joined now advances₁ inv₁ served kept₁ all₁ => ?_
  rcases join_served served with ⟨n, rfl, inside, rfl⟩ | ⟨n, rfl, found⟩
  · obtain ⟨flight, found, rfl⟩ := inv₁.keyed .restore b n inside
    refine Reports.access_bind (by simp) (fun _ _ _ => trivial)
      fun w₂ fault reply now₂ advances₂ inv₂ served kept₂ all₂ => ?_
    have waited (reply) : Aboard .restore flight.blobID n
        (history ++ [⟨.join .restore flight.blobID, .waits n⟩] ++ [⟨.await .restore ctx n, reply⟩]) :=
      aboard_waits.mono (List.prefix_append _ _)
    obtain ⟨rfl, ⟨record, rfl, found₂, done⟩ | ⟨err, rfl, cancelled⟩⟩ := await_served served
    · obtain ⟨same, found₂', named, -⟩ := advances₂.flights .restore n flight found
      cases found₂.symm.trans found₂'
      have restores : Restores cfg _ n record.blobID record.result :=
        kept₂.landed .restore n record found₂ done
      rw [named, Flight.result] at restores
      simp only
      split
      · rename_i err failed
        rw [failed] at restores
        exact Returns.pure fun w₃ later _ =>
          ⟨n, waited _, .inr (restores.mono later.later.deeds)⟩
      · rename_i none
        rw [none] at restores
        exact Returns.pure fun w₃ later _ =>
          ⟨n, waited _, .inr (restores.mono later.later.deeds)⟩
    · exact Returns.pure fun w₃ later _ =>
        ⟨n, waited _, .inl ⟨err, rfl, later.cancelled ctx err cancelled⟩⟩
  · have asked : Reports calm cfg opens admits op (call (.storeGet ctx { key := b }))
        (history ++ [⟨.join .restore b, .leads n⟩])
        (w₁.advance (some ⟨op, .join .restore b, .leads n⟩) now) fun _ answer w' =>
          Restores cfg w'.deeds n b (restoreBody cfg.maxRestoreBytes b answer) := by
      refine Reports.call_last keeps fun w₂ answer now₂ w' first later => ⟨op, answer, ?_, rfl⟩
      obtain ⟨between, same⟩ := first.later.deeds
      refine List.Sublist.trans ?_ later.later.deeds.sublist
      rw [own, Logged.deeds_advance, ← same, Logged.deeds_advance]
      simp only [Option.toList_some, List.append_assoc, List.singleton_append]
      exact (((List.sublist_append_right between [_]).cons_cons _).trans
        (List.sublist_append_right w₁.deeds _))
    refine Returns.bind singleFlight_coherent kept₁ (Returns.recovered asked.extends)
      fun _ _ w₂ advances₂ inv₂ result => ?_
    obtain ⟨answer, rfl, longer, restores⟩ := result
    obtain ⟨flight₂, found₂, named₂, -⟩ := advances₂.flights .restore n _ found
    have landed (err body info) (same : Flight.result ⟨b, false, err, body, info⟩ =
        restoreBody cfg.maxRestoreBytes b answer) (w' : Log C S)
        (later : Advances calm cfg w₂ w') (flight : Flight)
        (found : w'.now.flight .restore n = some flight) :
        Landed calm cfg w' n (flight.publish err body info) .restore := by
      obtain ⟨same', found', named', -⟩ := later.flights .restore n flight₂ found₂
      cases found.symm.trans found'
      have key : (flight.publish err body info).blobID = b := named'.trans named₂
      have mono := restores.mono later.later.deeds
      rw [← same] at mono
      rw [Landed, key]
      exact mono
    simp only
    split
    · rename_i err failed
      rw [failed] at restores
      refine land_reports ⟨flight₂, found₂⟩ (landed (some err) [] {} failed.symm)
        fun _ w₃ longer' later _ => Returns.pure fun w₄ last _ =>
          ⟨n, aboard_leads.mono (longer.trans longer'), .inr ?_⟩
      exact restores.mono (singleFlight_coherent.trans later last).later.deeds
    · rename_i body info restored
      rw [restored] at restores
      refine land_reports ⟨flight₂, found₂⟩ (landed none body info restored.symm)
        fun _ w₃ longer' later _ => Returns.pure fun w₄ last _ =>
          ⟨n, aboard_leads.mono (longer.trans longer'), .inr ?_⟩
      exact restores.mono (singleFlight_coherent.trans later last).later.deeds

/-- A Read that no flight was needed for, or the result of the flight it joined. -/
def ReadExplained (cfg : Config) (ctx : Context) (b : String) (history : History pipeline)
    (result : Except GoError ReadResult) (w : Log C S) : Prop :=
  (Joins .restore b history = false ∧ ∀ res, result = .ok res → res.fromCache = true) ∨
    ∃ n, Aboard .restore b n history ∧
      ((∃ err, result = .error err ∧ w.now.ctxErr ctx = some err) ∨
        ∃ restored, Restores cfg w.deeds n b restored ∧ result = readResult restored)

theorem read_reports (own : op.op.context = ctx) (b : String) :
    Reports calm cfg opens admits op (read cfg ctx b) [] w fun full result w' =>
      ReadExplained cfg ctx b full result w' := by
  unfold read
  split
  · exact Returns.pure fun _ _ _ => .inl ⟨rfl, fun _ failed => by cases failed⟩
  · refine Reports.call_any keeps fun w₁ result _ inv₁ => ?_
    match result with
    | .ok (r, md) =>
      refine Reports.call_any keeps fun w₂ looked _ _ => ?_
      match looked with
      | .ok (some row) => exact Returns.pure fun _ _ _ => .inl ⟨rfl, fun _ hit => by cases hit; rfl⟩
      | .ok none => exact Returns.pure fun _ _ _ => .inl ⟨rfl, fun _ hit => by cases hit; rfl⟩
      | .error err => exact Returns.pure fun _ _ _ => .inl ⟨rfl, fun _ hit => by cases hit; rfl⟩
    | .error err =>
      simp only
      split
      · refine Returns.bind singleFlight_coherent inv₁ (restoreFromL2_reports keeps own b)
          fun _ result w₂ _ _ explained => ?_
        obtain ⟨n, joined, explained⟩ := explained
        match result, explained with
        | .error err, .inl ⟨_, same, cancelled⟩ =>
          cases same
          exact Returns.pure fun w₃ later _ =>
            .inr ⟨n, joined, .inl ⟨err, rfl, later.cancelled ctx err cancelled⟩⟩
        | .error err, .inr restores =>
          exact Returns.pure fun w₃ later _ =>
            .inr ⟨n, joined, .inr ⟨.error err, restores.mono later.later.deeds, rfl⟩⟩
        | .ok (body, info), .inr restores =>
          refine Reports.access_bind (by simp) (fun _ _ _ => trivial)
            fun _ _ _ _ _ _ _ _ all => Returns.pure fun w₃ later _ => ?_
          exact .inr ⟨n, joined.mono (List.prefix_append _ _), .inr ⟨.ok (body, info),
            restores.mono (singleFlight_coherent.trans all later).later.deeds, rfl⟩⟩
      · exact Returns.pure fun _ _ _ => .inl ⟨rfl, fun _ failed => by cases failed⟩

theorem write_reports (own : op.op.context = ctx) (late : since ≤ w.past.length) (b : String)
    (body : Bytes) (opts : WriteOptions) :
    Reports calm cfg opens admits op (write ctx b body opts) history w fun full result w' =>
      ∀ res, result = .ok res → res.commitState = .durable →
        (∃ n, Aboard .promote b n full ∧ Promotes w'.deeds n b none) ∧
          Secured calm w'.worlds since b := by
  unfold write
  split
  · exact .fails
  · refine Reports.call_any keeps fun w₁ result advances₁ _ => ?_
    match result with
    | some err => exact .fails
    | none =>
      refine Reports.access_bind (by simp) (fun _ _ _ => trivial)
        fun _ _ _ _ _ _ _ _ advances₂ => ?_
      refine Reports.call_any keeps fun w₃ result advances₃ inv₃ => ?_
      match result with
      | some err => exact .fails
      | none =>
        simp only
        split
        · have all := singleFlight_coherent.trans advances₁
            (singleFlight_coherent.trans advances₂ advances₃)
          refine Returns.bind singleFlight_coherent inv₃
            (promote_reports keeps own (late.trans all.later.length) b)
            fun _ err w₄ _ _ promoted => ?_
          obtain ⟨⟨n, joined, explained⟩, achieved⟩ := promoted
          match err, explained, achieved with
          | some err, _, _ => exact .fails
          | none, .inr promotes, achieved =>
            exact Returns.pure fun w₅ later _ _ _ _ =>
              ⟨⟨n, joined, promotes.mono later.later.deeds⟩, (achieved rfl).later later.later⟩
        · refine Returns.pure fun _ _ _ res written state => ?_
          cases written
          contradiction

theorem fillCache_reports (task : Fill) :
    Reports calm cfg opens admits op (fillCache task) history w fun _ _ _ => True := by
  refine Reports.access_bind (by simp) (fun _ _ _ => trivial) fun _ _ reply _ _ _ _ _ _ => ?_
  match reply with
  | some err => exact .done
  | none =>
    exact Reports.call_any keeps fun _ _ _ _ => Reports.call_any keeps fun _ _ _ _ =>
      .done

theorem evict_reports (ctx : Context) (b : String) :
    Reports calm cfg opens admits op (evict ctx b) history w fun _ _ _ => True := by
  refine Reports.call_any keeps fun w₁ looked _ _ => ?_
  have evicts (history : History pipeline) : Reports calm cfg opens admits op
      (call (.cacheEvict ctx b)) history w₁ fun _ _ _ => True :=
    Reports.call_last keeps fun _ _ _ _ _ _ => trivial
  match looked with
  | .ok (some row) =>
    by_cases durable : row.commitState = .durable
    · simp only [durable, ne_eq, not_true_eq_false]
      exact evicts _
    · simp only [durable, ne_eq, not_false_eq_true]
      exact .done
  | .ok none => exact evicts _
  | .error err => exact evicts _

end Operations

end KDrive.Blobio
