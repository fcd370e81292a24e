import KDrive.Blobio.Durability

/-! No acknowledged blob is lost, as long as Evict is not let loose on an only copy.
Evict takes a failed or empty status lookup for leave to remove the entry, which is
how one is lost. -/
namespace KDrive.Blobio
open Go Blobstore Hotcache Interaction

/-- All Writes to one blob ID carry the same body. -/
def SameBody (content : Contents) : Operation → Prop
  | .write _ b body _ => body = content b
  | _ => True

/-- The blob a request removes from the cache. -/
def removes : Request → Option String
  | .call (.cacheEvict _ b) => some b
  | _ => none

/-- An Evict whose status lookup failed or found no row removes nothing that has no
copy in the durable store. -/
def GuardedEvictions : Admission pipeline Node Operation := fun _ history w q _ =>
  ∀ b, removes q = some b → lookupFound history = true ∨ Stored w.store b ∨ w.cache.view b = none

/-- Some Write of `b` has returned success. -/
def Acknowledged (s : System pipeline Node Operation (Except String Answer)) (b : String) : Prop :=
  ∃ ctx body opts history res,
    ⟨.write ctx b body opts, history, .ret (.ok (.wrote (.ok res)))⟩ ∈ s.threads

instance (content : Contents) (w : Node) (b : String) : Decidable (Holds content w b) :=
  decidable_of_iff ((w.cache.view b).any (·.body = content b) = true ∨
      (w.store.objects b).any (·.data = content b) = true)
    (by simp [Holds, Option.any_eq_true])

def acknowledges (b : String) : Thread pipeline Operation (Except String Answer) → Bool
  | ⟨.write _ named _ _, _, .ret (.ok (.wrote (.ok _)))⟩ => named = b
  | _ => false

theorem acknowledged_iff (s : System pipeline Node Operation (Except String Answer)) (b : String) :
    s.threads.any (acknowledges b) = true ↔ Acknowledged s b := by
  rw [List.any_eq_true]
  constructor
  · rintro ⟨t, member, acknowledges⟩
    unfold Blobio.acknowledges at acknowledges
    split at acknowledges
    · rename_i ctx named body opts history res
      obtain rfl : named = b := by simpa using acknowledges
      exact ⟨ctx, body, opts, history, res, member⟩
    · contradiction
  · rintro ⟨ctx, body, opts, history, res, member⟩
    exact ⟨_, member, by simp [acknowledges]⟩

instance (s : System pipeline Node Operation (Except String Answer)) (b : String) :
    Decidable (Acknowledged s b) :=
  decidable_of_iff _ (acknowledged_iff s b)

/-- A fresh pipeline over a store whose objects, if it has any, are the blobs'. -/
structure Fresh (content : Contents) (scale : Int → ℚ → Int) (policy : EvictionPolicy)
    (w : Node) : Prop where
  made : newMemoryCache scale policy = .ok w.cache
  range : IsInt64 policy.maxBytes
  noTTL : content.lasting → policy.ttl = 0
  objects : ∀ b object, w.store.objects b = some object → object.data = content b
  uploads : ∀ upload, w.store.uploads upload = none
  status : ∀ b, w.status b = none
  flights : ∀ table, w.flights table = {}
  fills : w.fills = []

variable {content : Contents} {cfg : Config} {w : Node}

theorem Fresh.consistent (fresh : Fresh content scale policy w)
    (below : policy.maxBytes ≠ maxInt64) : Consistent content w := by
  obtain ⟨steady, empty⟩ := MemoryCache.steady_new fresh.range below fresh.noTTL fresh.made
  constructor
  · exact steady
  · intro b held found
    cases (empty b).symm.trans found
  · exact fresh.objects
  · intro upload parts found
    cases (fresh.uploads upload).symm.trans found
  · intro b row found
    cases (fresh.status b).symm.trans found
  · intro b n found
    rw [fresh.flights] at found
    contradiction
  · intro n flight found
    rw [World.flight, fresh.flights] at found
    contradiction
  · simp [fresh.fills]

/-- Over every interleaving and every pattern of failing status and store calls, whether or
not the store's answers are complete: an acknowledged body is in the cache or is the current
durable object. -/
theorem acknowledged_held (whole : RestoresWhole cfg content) (fresh : Fresh content scale policy w)
    (below : policy.maxBytes ≠ maxInt64) (lasting : content.lasting)
    (run : (nodeMachine cfg (Plain content.told) (SameBody content)
      GuardedEvictions).Reaches ⟨w, []⟩ s)
    (acknowledged : Acknowledged s b) : Holds content s.world b := by
  have composed : Composes (nodeMachine cfg (Plain content.told) (SameBody content)
      GuardedEvictions) (custody content True) fun op _ => Tells content True False op :=
    operations_compose whole (fun _ _ _ _ same => same)
      (fun _ _ _ _ _ b _ admitted => admitted b rfl) (fun impossible => impossible.elim)
  obtain ⟨ctx, body, opts, history, res, member⟩ := acknowledged
  exact composed.returned (fresh.consistent below) run member trivial lasting

section Runs

def lruCache (maxBytes : Int) : MemoryCache :=
  { policy := { kind := .lru, maxBytes }, stats := { bytesLimit := maxBytes } }

/-- An empty cache over a store. -/
abbrev bareNode (store : MapStore := {}) : Node := { cache := lruCache 100, store }

variable {told : Prop}

def sevens (told : Prop) : Contents := ⟨fun _ => [7], told, True⟩

theorem default_restoresWhole : RestoresWhole {} content :=
  ⟨by decide, fun largest => absurd largest (by decide)⟩

theorem bareNode_fresh : Fresh (sevens told) (fun _ _ => 0) { maxBytes := 100 } bareNode :=
  ⟨rfl, by decide, fun _ => rfl, by simp, by simp, by simp, by simp, rfl⟩

abbrev Plainly (told : Prop) :=
  List (Move Operation { fault : Fault MapStore // Plain told fault } Change)

def calm : { fault : Fault MapStore // Plain told fault } :=
  ⟨⟨({} : Omission), .calm⟩, fun _ => rfl, by simp⟩

/-- The store's answer has neither size nor checksum. -/
def terse : { fault : Fault MapStore // Plain False fault } :=
  ⟨⟨({ size := true, checksum := true } : Omission), .calm⟩, False.elim, by simp⟩

def failing (text : String) : { fault : Fault MapStore // Plain told fault } :=
  ⟨⟨({} : Omission), .fails (.new text) false⟩, fun _ => rfl, by simp⟩

/-- The moves, from a pipeline over an empty cache and an empty store. -/
def follow (cfg : Config) (maxBytes : Int)
    (checks : Operation → History pipeline → Node → (q : Request) → q.Reply → Bool)
    (moves : Plainly told) :
    Option (System pipeline Node Operation (Except String Answer)) :=
  (driver MemoryCache MapStore (Plain told)).follow (fun op => (op.body cfg).run) checks moves
    ⟨{ cache := lruCache maxBytes, store := {} }, []⟩

theorem follow_exhibits {opens : Operation → Prop} {admits : Admission pipeline Node Operation}
    (checks : Operation → History pipeline → Node → (q : Request) → q.Reply → Bool)
    (moves : Plainly told)
    (sound : ∀ op history w q reply, checks op history w q reply = true →
      admits op history w q reply)
    (opened : ∀ op, .start op ∈ moves → opens op)
    {p : System pipeline Node Operation (Except String Answer) → Prop} [DecidablePred p]
    (found : (follow cfg maxBytes checks moves).any (fun s => p s) = true) :
    ∃ s, (nodeMachine cfg (Plain told) opens admits).Reaches
      ⟨{ cache := lruCache maxBytes, store := {} }, []⟩ s ∧ p s := by
  obtain ⟨s, run, holds⟩ := Driver.follow_exhibits sound opened found
  exact ⟨s, run, of_decide_eq_true holds⟩

private def lossByEvict : Plainly True :=
  .start (.write (.caller 0) "a" [7] {}) :: List.replicate 3 (.call 0 calm) ++
    [.start (.evict (.caller 1) "a"), .call 1 (failing "status store unavailable"), .call 1 calm]

private def lossByCapacity : Plainly True :=
  .start (.write (.caller 0) "a" [7] {}) :: List.replicate 3 (.call 0 calm)

end Runs

/-- Both ways to lose one: an Evict whose status lookup fails removes the only copy,
and a cache of the largest capacity never held it. -/
theorem acknowledged_lost :
    (∃ s, (nodeMachine {} (Plain True) (SameBody (sevens True))
        fun _ _ _ _ _ => True).Reaches ⟨bareNode, []⟩ s ∧
      Acknowledged s "a" ∧ ¬ Holds (sevens True) s.world "a") ∧
    ∃ s, (nodeMachine {} (Plain True) (SameBody (sevens True))
        fun _ _ _ _ _ => True).Reaches ⟨{ cache := lruCache maxInt64, store := {} }, []⟩ s ∧
      Acknowledged s "a" ∧ ¬ Holds (sevens True) s.world "a" := by
  constructor
  · exact follow_exhibits (fun _ _ _ _ _ => true) lossByEvict (fun _ _ _ _ _ _ => trivial)
      (by simp [lossByEvict, SameBody, sevens]) (by decide +kernel)
  · exact follow_exhibits (fun _ _ _ _ _ => true) lossByCapacity (fun _ _ _ _ _ _ => trivial)
      (by simp [lossByCapacity, SameBody, sevens]) (by decide +kernel)

private def promotedThenEvicted : Plainly False :=
  .start (.write (.caller 0) "a" [7] {}) :: List.replicate 3 (.call 0 calm) ++
    .start (.promote (.caller 1) "a") :: List.replicate 11 (.call 1 terse) ++
    .start (.evict (.caller 2) "a") :: List.replicate 2 (.call 2 calm)

private def evictsFoundOnly (_ : Operation) (history : History pipeline) (_ : Node) (q : Request)
    (_ : q.Reply) : Bool :=
  (removes q).isNone || lookupFound history

/-- A written, promoted and evicted blob, over a store that tells no sizes. -/
theorem acknowledged_held_evicted : ∃ s,
    (nodeMachine {} (Plain False) (SameBody (sevens False)) GuardedEvictions).Reaches
      ⟨bareNode, []⟩ s ∧
    Acknowledged s "a" ∧ s.world.cache.view "a" = none ∧ Holds (sevens False) s.world "a" := by
  have sound : ∀ op history w q reply, evictsFoundOnly op history w q reply = true →
      GuardedEvictions op history w q reply := by
    intro op history w q reply checked b removed
    exact .inl (by simpa [evictsFoundOnly, removed] using checked)
  have exhibited : ∃ s, (nodeMachine {} (Plain False) (SameBody (sevens False))
      GuardedEvictions).Reaches ⟨bareNode, []⟩ s ∧
      Acknowledged s "a" ∧ s.world.cache.view "a" = none :=
    follow_exhibits evictsFoundOnly promotedThenEvicted sound
      (by simp [promotedThenEvicted, SameBody, sevens]) (by decide +kernel)
  obtain ⟨s, run, acknowledged, evicted⟩ := exhibited
  exact ⟨s, run, acknowledged, evicted, acknowledged_held default_restoresWhole
    bareNode_fresh (by decide) trivial run acknowledged⟩

end KDrive.Blobio
