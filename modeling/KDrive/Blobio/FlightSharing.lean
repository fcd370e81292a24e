import KDrive.Blobio.FlightHonesty

/-! Single-flight hands the leader's result to everyone who joined it: an answer of the
store to the leader, made under the leader's context. A caller is therefore as good off
as the leader it found, which is what Promote documents, and not as good off as it would
have been alone. -/
namespace KDrive.Blobio
open Go Blobstore Hotcache Interaction

/-- The context a call is made under; an abort has one of its own. -/
def Call.context : Call → Option Context
  | .cacheGet ctx _ | .cachePut ctx .. | .cacheEvict ctx _ => some ctx
  | .statusGet ctx _ | .statusPut ctx _ | .markDurable ctx .. => some ctx
  | .storePut ctx _ | .storeGet ctx _ | .storeHead ctx _ => some ctx
  | .createMultipart ctx _ | .uploadPart ctx _ | .completeMultipart ctx _ => some ctx
  | .abortMultipart _ => none

section Sharing
variable {C S : Type} [Cache C] [Store S]

/-- The component's own answer, unless the context of the call is done. -/
def Genuine (w : World C S) : (q : Request) → q.Reply → Prop
  | .call c, reply => ∀ ctx, c.context = some ctx → w.ctxErr ctx = none →
    ∃ weather, reply = .returned (perform weather w c).1
  | _, _ => True

/-- Calls fail for no other reason than their own context. -/
def Healthy : Admission pipeline (World C S) Operation := fun _ _ w q reply => Genuine w q reply

/-- The call that leads flight `n` did this work after opening it; in a healthy run, on
answers that were the components' own when it got them. -/
def Led (healthy : Prop) (w : Log C S) (t : Table) (b : String) (n : Nat)
    (leader : Stamped Operation) (work : History pipeline) : Prop :=
  ∃ entries, List.Sublist entries w.past ∧
    entries.filterMap Entry.deed = ⟨leader, .join t b, .leads n⟩ :: work.map (Deed.mk leader) ∧
    (healthy → ∀ u deed, ⟨u, some deed⟩ ∈ entries → Genuine u deed.event.request deed.event.reply)

/-- Who joined a flight returns the error of its own context or the leader's result. -/
structure SharesResults (healthy : Prop) (cfg : Config) (s : Past C S) : Prop where
  read : ∀ ctx b since history result,
    ⟨⟨.read ctx b, since⟩, history, .ret (.ok (.read result))⟩ ∈ s.threads →
    Joins .restore b history = true → ∃ n, Aboard .restore b n history ∧
      ((∃ err, result = .error err ∧ s.world.now.ctxErr ctx = some err) ∨
        ∃ leader answer, Led healthy s.world .restore b n leader
            [⟨.call (.storeGet leader.op.context { key := b }), .returned answer⟩] ∧
          result = readResult (restoreBody cfg.maxRestoreBytes b answer))
  promote : ∀ ctx b since history err,
    ⟨⟨.promote ctx b, since⟩, history, .ret (.ok (.promoted err))⟩ ∈ s.threads →
    ∃ n, Aboard .promote b n history ∧
      ((∃ e, err = some e ∧ s.world.now.ctxErr ctx = some e) ∨
        ∃ leader work, Led healthy s.world .promote b n leader work ∧
          Replays (promoteLocked leader.op.context b).run work (.ok err))

variable {healthy : Prop} {cfg : Config} {opens : Operation → Prop}
  {admits : Admission pipeline (World C S) Operation} {w : World C S} {s : Past C S}
  (genuine : healthy → ∀ op history w q reply, admits op history w q reply → Genuine w q reply)
include genuine

theorem led_of_logged {allowed : Fault S → Prop} {t : Table} {work : History pipeline}
    (run : (machine C S cfg allowed opens admits).logged.Reaches ⟨⟨w, []⟩, []⟩ s)
    (logged : List.Sublist (⟨leader, .join t b, .leads n⟩ :: work.map (Deed.mk leader))
      s.world.deeds) : Led healthy s.world t b n leader work := by
  obtain ⟨entries, inside, same⟩ := List.sublist_filterMap_iff.mp logged
  refine ⟨entries, inside, same.symm, fun well u deed member => ?_⟩
  obtain ⟨history, admitted⟩ := logged_admitted run (inside.subset member)
  exact genuine well _ _ _ _ _ admitted

theorem results_shared (idle : ∀ table, w.flights table = {})
    (run : (machine C S cfg NoPanic opens admits).logged.Reaches ⟨⟨w, []⟩, []⟩ s) :
    SharesResults healthy cfg s := by
  have composed : Composes (machine C S cfg NoPanic opens admits).logged
      (singleFlight False cfg C S) (Explained False cfg) :=
    flights_compose fun impossible => impossible.elim
  have initial : Honest False cfg ⟨w, []⟩ := honest_idle idle
  constructor
  · intro ctx b since history result member joins
    have explained : ReadExplained cfg ctx b history result s.world :=
      composed.returned initial run member
    rcases explained with ⟨alone, -⟩ | ⟨n, aboard, own | ⟨restored, ⟨leader, answer, logged, rfl⟩, rfl⟩⟩
    · rw [alone] at joins
      contradiction
    · exact ⟨n, aboard, .inl own⟩
    · exact ⟨n, aboard, .inr ⟨leader, answer, led_of_logged genuine run logged, rfl⟩⟩
  · intro ctx b since history err member
    obtain ⟨⟨n, aboard, own | ⟨leader, work, replays, logged⟩⟩, -⟩ :=
      composed.returned initial run member
    · exact ⟨n, aboard, .inl own⟩
    · exact ⟨n, aboard, .inr ⟨leader, work, led_of_logged genuine run logged, replays⟩⟩

end Sharing

section PromoteSync
variable {content : Contents} {cfg : Config} {w : Node} {s : Past MemoryCache MapStore}

/-- The body of a Write that returned as durable is the current object. -/
def SyncedDurable (s : Past MemoryCache MapStore) : Prop :=
  ∀ ctx b body opts since history res,
    ⟨⟨.write ctx b body opts, since⟩, history, .ret (.ok (.wrote (.ok res)))⟩ ∈ s.threads →
    res.commitState = .durable → ∃ object, s.world.now.store.objects b = some object ∧ object.data = body

theorem plain_within {opens : Operation → Prop} {admits : Admission pipeline Node Operation} :
    (nodeMachine cfg (Plain told) opens admits).Within
      (nodeMachine cfg NoPanic opens admits) where
  handler := fun ⟨fault, served⟩ => ⟨⟨fault.val, fault.property.2⟩, served⟩
  body := rfl
  starts := id
  environment := id
  admits := id

theorem synced_durable (whole : RestoresWhole cfg content) (fresh : Fresh content scale policy w)
    (below : policy.maxBytes ≠ maxInt64)
    (run : (nodeMachine cfg (Plain content.told) (SameBody content)
      fun _ _ _ _ _ => True).logged.Reaches ⟨⟨w, []⟩, []⟩ s) : SyncedDurable s := by
  intro ctx b body opts since history res member state
  have flights : Composes (nodeMachine cfg NoPanic (SameBody content)
      fun _ _ _ _ _ => True).logged (singleFlight False cfg MemoryCache MapStore)
      (Explained False cfg) := flights_compose fun impossible => impossible.elim
  have bodies : Composes (nodeMachine cfg (Plain content.told) (SameBody content)
      fun _ _ _ _ _ => True) (custody content False) fun op _ => Tells content False False op :=
    operations_compose whole (fun _ _ _ _ same => same) (fun impossible => impossible.elim)
      (fun impossible => impossible.elim)
  -- The promotion this Write waited for left a durable row at some time.
  obtain ⟨-, ⟨time, u, -, found, row, there, durable⟩, -⟩ := flights.returned
    (honest_idle fresh.flights) (plain_within.logged.reaches run) member state
  obtain ⟨consistent, keeps⟩ := bodies.worlds (fresh.consistent below) run (List.mem_of_getElem? found)
  have stored : Stored u.store b := (consistent.rows b row there).2 durable
  obtain ⟨object, current⟩ := keeps.stored b stored
  have now : Consistent content s.world.now :=
    bodies.invariant (fresh.consistent below) (present_reaches run)
  have same : body = content b := by
    have unstamped : (⟨.write ctx b body opts, history, .ret (.ok (.wrote (.ok res)))⟩ :
        Thread pipeline Operation (Except String Answer)) ∈ s.present.threads :=
      List.mem_map_of_mem member
    exact Driver.machine_opened (present_reaches run) _ unstamped
  exact ⟨object, current, by rw [same, now.objects b object current]⟩

end PromoteSync

/-- Who joins a flight gets the error of its own context or the leader's result, which in
a healthy run is made of genuine answers; and a Write that waited for a promotion has its
body durable, given that all Writes of the ID carry the same one. -/
theorem flights_share :
    (∀ (C S : Type) [Cache C] [Store S] (cfg : Config) (w : World C S) (s : Past C S),
      (∀ table, w.flights table = {}) →
      ((machine C S cfg NoPanic (fun _ => True) fun _ _ _ _ _ => True).logged.Reaches
          ⟨⟨w, []⟩, []⟩ s → SharesResults False cfg s) ∧
      ((machine C S cfg NoPanic (fun _ => True) Healthy).logged.Reaches ⟨⟨w, []⟩, []⟩ s →
        SharesResults True cfg s)) ∧
    ∀ (content : Contents) (cfg : Config) (scale : Int → ℚ → Int) (policy : EvictionPolicy)
      (w : Node) (s : Past MemoryCache MapStore),
      RestoresWhole cfg content → Fresh content scale policy w → policy.maxBytes ≠ maxInt64 →
      (nodeMachine cfg (Plain content.told) (SameBody content)
        fun _ _ _ _ _ => True).logged.Reaches ⟨⟨w, []⟩, []⟩ s → SyncedDurable s := by
  constructor
  · intro C S _ _ cfg w s idle
    exact ⟨results_shared (fun impossible => impossible.elim) idle,
      results_shared (fun _ _ _ _ _ _ admitted => admitted) idle⟩
  · intro content cfg scale policy w s whole fresh below run
    exact synced_durable whole fresh below run

section Runs

def answersItself (w : Node) (c : Call) (reply : Outcome c.Result) : Bool :=
  c.context.all (fun ctx => (w.ctxErr ctx).isSome) ||
    decide (reply = .returned (perform ({} : Omission) w c).1)

def healthy (_ : Operation) (_ : History pipeline) (w : Node) : (q : Request) → q.Reply → Bool
  | .call c, reply => answersItself w c reply
  | _, _ => true

theorem answersItself_genuine {w : Node} {c : Call} {reply : Outcome c.Result}
    (checked : answersItself w c reply = true) : Genuine w (.call c) reply := by
  intro ctx under live
  rcases Bool.or_eq_true_iff.mp checked with done | answered
  · simp [under, live] at done
  · have same : reply = .returned (perform ({} : Omission) w c).1 := of_decide_eq_true answered
    exact ⟨({} : Omission), same⟩

theorem healthy_sound (op : Operation) (history : History pipeline) (w : Node) (q : Request)
    (reply : q.Reply) (checked : healthy op history w q reply = true) :
    Healthy op history w q reply := by
  cases q with
  | call c => exact answersItself_genuine checked
  | _ => trivial

def failsQuietly (err : GoError) : { fault : Fault MapStore // NoPanic fault } :=
  ⟨⟨({} : Omission), .fails err false⟩, by simp [NoPanic]⟩

private def cancelledLeader : Schedule NoPanic :=
  .start (.read (.caller 0) "a") :: List.replicate 2 (.call 0 (quiet {})) ++
    .start (.read (.caller 1) "a") :: List.replicate 2 (.call 1 (quiet {})) ++
    .change (.cancel (.caller 0) contextCanceled) :: .call 0 (failsQuietly contextCanceled) ::
    List.replicate 3 (.call 0 (quiet {})) ++ [.call 1 (quiet {})]

private def lateReader : Schedule NoPanic :=
  .start (.read (.caller 0) "a") :: List.replicate 3 (.call 0 (quiet {})) ++
    .start (.write (.caller 1) "a" [7] {}) :: List.replicate 3 (.call 1 (quiet {})) ++
    .start (.promote (.caller 2) "a") :: List.replicate 11 (.call 2 (quiet {})) ++
    .start (.evict (.caller 3) "a") :: List.replicate 2 (.call 3 (quiet {})) ++
    .start (.read (.caller 4) "a") :: List.replicate 2 (.call 4 (quiet {})) ++
    List.replicate 3 (.call 0 (quiet {})) ++ [.call 4 (quiet {})]

private def overtakenWrite : Schedule NoPanic :=
  .start (.write (.caller 0) "a" [7] {}) :: List.replicate 3 (.call 0 (quiet {})) ++
    .start (.promote (.caller 1) "a") :: List.replicate 4 (.call 1 (quiet {})) ++
    .start (.write (.caller 2) "a" [8] { promoteSync := true }) ::
    List.replicate 4 (.call 2 (quiet {})) ++ List.replicate 7 (.call 1 (quiet {})) ++
    [.call 2 (quiet {})]

/-- The Read failed, although its context is live and the store had the object at all
times since it began. -/
def failsAgainstStore (ctx : Context) (b : String) (data : Bytes) (w : Log MemoryCache MapStore) :
    Thread pipeline (Stamped Operation) (Except String Answer) → Bool
  | ⟨⟨.read reader named, since⟩, _, .ret (.ok (.read (.error _)))⟩ =>
    reader = ctx && named = b && (w.now.ctxErr ctx).isNone &&
      (w.worlds.drop since).all fun u => (u.store.objects b).any fun object => object.data = data
  | _ => false

def syncedWrite (b : String) (body : Bytes) :
    Thread pipeline (Stamped Operation) (Except String Answer) → Bool
  | ⟨⟨.write _ named data _, _⟩, _, .ret (.ok (.wrote (.ok res)))⟩ =>
    named = b && data = body && res.commitState = .durable
  | _ => false

end Runs

/-- A reader whose own context is live fails with the cancellation of the one it waited
for, although the store has the object all along; one that joins a flight after its leader
found nothing fails too, with no context cancelled; and a Write that overtakes a promotion
is told it is durable when the body of the one before it is. -/
theorem flights_leak :
    (∃ s, (nodeMachine {} NoPanic (fun op => ∃ ctx, op = .read ctx "a")
        Healthy).logged.Reaches ⟨⟨bareNode (storing "a" [7]), []⟩, []⟩ s ∧
      s.threads.any (failsAgainstStore (.caller 1) "a" [7] s.world) = true) ∧
    (∃ s, (nodeMachine {} NoPanic (fun _ => True) Healthy).logged.Reaches
        ⟨⟨bareNode, []⟩, []⟩ s ∧
      s.threads.any (failsAgainstStore (.caller 4) "a" [7] s.world) = true ∧
      s.world.now.ctxErr (.caller 0) = none) ∧
    ∃ s, (nodeMachine {} NoPanic (fun _ => True) Healthy).logged.Reaches
        ⟨⟨bareNode, []⟩, []⟩ s ∧
      s.threads.any (syncedWrite "a" [8]) = true ∧
      ∀ u ∈ s.world.worlds, ∀ object, u.store.objects "a" = some object → object.data ≠ [8] := by
  refine ⟨?_, ?_, ?_⟩
  · exact followLogged_exhibits {} _ healthy cancelledLeader healthy_sound
      (by simp [cancelledLeader])
      (p := fun s => s.threads.any (failsAgainstStore (.caller 1) "a" [7] s.world))
      (by decide +kernel)
  · obtain ⟨s, run, found⟩ := followLogged_exhibits {} {} healthy lateReader healthy_sound
      (fun _ _ => trivial)
      (p := fun s => s.threads.any (failsAgainstStore (.caller 4) "a" [7] s.world) &&
        (s.world.now.ctxErr (.caller 0)).isNone) (by decide +kernel)
    obtain ⟨failed, live⟩ := Bool.and_eq_true_iff.mp found
    exact ⟨s, run, failed, Option.isNone_iff_eq_none.mp live⟩
  · obtain ⟨s, run, found⟩ := followLogged_exhibits {} {} healthy overtakenWrite healthy_sound
      (fun _ _ => trivial)
      (p := fun s => s.threads.any (syncedWrite "a" [8]) &&
        s.world.worlds.all fun u => (u.store.objects "a").all fun object => object.data ≠ [8])
      (by decide +kernel)
    obtain ⟨written, never⟩ := Bool.and_eq_true_iff.mp found
    refine ⟨s, run, written, fun u member object current => ?_⟩
    have differs := List.all_eq_true.mp never u member
    rw [current] at differs
    exact of_decide_eq_true differs

private def sharedReads : Schedule NoPanic :=
  .start (.read (.caller 0) "a") :: List.replicate 2 (.call 0 (quiet {})) ++
    .start (.read (.caller 1) "a") :: List.replicate 2 (.call 1 (quiet {})) ++
    List.replicate 5 (.call 0 (quiet {})) ++ List.replicate 2 (.call 1 (quiet {}))

private def joinedPromotion : Schedule (Plain False) :=
  .start (.write (.caller 0) "a" [7] {}) :: List.replicate 3 (.call 0 calm) ++
    .start (.promote (.caller 1) "a") :: List.replicate 4 (.call 1 calm) ++
    .start (.write (.caller 2) "a" [7] { promoteSync := true }) ::
    List.replicate 4 (.call 2 calm) ++ List.replicate 7 (.call 1 calm) ++ [.call 2 calm]

/-- Two Reads on one flight, and a Write that waited for another's promotion. -/
theorem flights_share_joined :
    (∃ s, (nodeMachine {} NoPanic (fun _ => True) Healthy).logged.Reaches
        ⟨⟨bareNode (storing "a" [7]), []⟩, []⟩ s ∧
      (s.threads.filter succeeded).length = 2 ∧ SharesResults True {} s) ∧
    ∃ s, (nodeMachine {} (Plain False) (SameBody (sevens False))
        fun _ _ _ _ _ => True).logged.Reaches
        ⟨⟨bareNode, []⟩, []⟩ s ∧
      s.threads.any (syncedWrite "a" [7]) = true ∧ SyncedDurable s := by
  constructor
  · have exhibited : ∃ s, (nodeMachine {} NoPanic (fun _ => True)
        Healthy).logged.Reaches
          ⟨⟨bareNode (storing "a" [7]), []⟩, []⟩ s ∧
        decide ((s.threads.filter succeeded).length = 2) = true :=
      followLogged_exhibits {} _ healthy sharedReads healthy_sound (fun _ _ => trivial)
        (by decide +kernel)
    obtain ⟨s, run, found⟩ := exhibited
    exact ⟨s, run, of_decide_eq_true found,
      (flights_share.1 MemoryCache MapStore {} _ s (fun _ => rfl)).2 run⟩
  · have exhibited : ∃ s, (nodeMachine {} (Plain False) (SameBody (sevens False))
        fun _ _ _ _ _ => True).logged.Reaches
          ⟨⟨bareNode, []⟩, []⟩ s ∧
        s.threads.any (syncedWrite "a" [7]) = true :=
      followLogged_exhibits {} _ (fun _ _ _ _ _ => true) joinedPromotion
        (fun _ _ _ _ _ _ => trivial) (by simp [joinedPromotion, SameBody, sevens]) (by decide +kernel)
    obtain ⟨s, run, found⟩ := exhibited
    exact ⟨s, run, found, flights_share.2 _ {} _ _ _ s default_restoresWhole
      bareNode_fresh (by decide) run⟩

end KDrive.Blobio
