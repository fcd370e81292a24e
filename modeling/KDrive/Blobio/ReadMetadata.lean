import KDrive.Blobio.Acknowledged

/-! Size and checksum of a Read describe the bytes it returns, if the store's answers told
them. On a hit they come from a lookup of their own, whose failure Read ignores: then it
returns zero values with a nil error. -/
namespace KDrive.Blobio
open Go Blobstore Hotcache Interaction

/-- A status lookup that found no row, or failed. -/
def missedLookup : (q : Request) → q.Reply → Bool
  | .call (.statusGet ..), .returned (.ok (some _)) => false
  | .call (.statusGet ..), _ => true
  | _, _ => false

/-- Every Read that looks a blob's status up finds its row. -/
def LookupsFound : Admission pipeline Node Operation := fun op _ _ q reply =>
  ∀ ctx b, op = .read ctx b → missedLookup q reply = false

/-- What a Read that has returned success returned. -/
def returnedRead : Thread pipeline Operation (Except String Answer) → Option ReadResult
  | ⟨.read _ _, _, .ret (.ok (.read (.ok result)))⟩ => some result
  | _ => none

theorem returnedRead_eq_some {t : Thread pipeline Operation (Except String Answer)} :
    returnedRead t = some result ↔
      ∃ ctx b history, t = ⟨.read ctx b, history, .ret (.ok (.read (.ok result)))⟩ := by
  constructor
  · intro returned
    unfold returnedRead at returned
    split at returned
    · cases returned
      exact ⟨_, _, _, rfl⟩
    · contradiction
  · rintro ⟨ctx, b, history, rfl⟩
    rfl

variable {content : Contents} {cfg : Config} {w : Node}

/-- Over every interleaving of operations and every other failure. -/
theorem read_describes (whole : RestoresWhole cfg content) (fresh : Fresh content scale policy w)
    (below : policy.maxBytes ≠ maxInt64) (told : content.told)
    (run : (nodeMachine cfg (Plain content.told) (SameBody content)
      LookupsFound).Reaches ⟨w, []⟩ s)
    (member : t ∈ s.threads) (returned : returnedRead t = some result) :
    result.body.failure = none ∧ result.size = result.body.data.length ∧
      result.checksumSHA256 = checksumSHA256 result.body.data := by
  obtain ⟨ctx, b, history, rfl⟩ := returnedRead_eq_some.mp returned
  have finds : ∀ reader name (history : History pipeline) (w : Node) ctx b result,
      LookupsFound (.read reader name) history w (.call (.statusGet ctx b)) (.returned result) →
      ∃ row, result = .ok (some row) := by
    intro reader name history w ctx b result found
    have found := found reader name rfl
    match result, found with
    | .ok (some row), _ => exact ⟨row, rfl⟩
  have composed : Composes (nodeMachine cfg (Plain content.told) (SameBody content)
      LookupsFound) (custody content False) fun op _ => Tells content False True op :=
    operations_compose whole (fun _ _ _ _ same => same) (fun impossible => impossible.elim)
      (fun _ => finds)
  obtain ⟨sound, described⟩ := composed.returned (fresh.consistent below) run member trivial
  exact ⟨sound, (described told).size, (described told).checksum⟩

/-- Some Read has returned success with a wrong size or checksum. -/
def Misdescribed (s : System pipeline Node Operation (Except String Answer)) : Prop :=
  ∃ result ∈ s.threads.filterMap returnedRead,
    ¬ (result.size = result.body.data.length ∧
      result.checksumSHA256 = checksumSHA256 result.body.data)

instance (s : System pipeline Node Operation (Except String Answer)) : Decidable (Misdescribed s) :=
  List.decidableBEx _ _

private def lookupFails : Plainly True :=
  .start (.write (.caller 0) "a" [7] {}) :: List.replicate 3 (.call 0 calm) ++
    [.start (.read (.caller 1) "a"), .call 1 calm, .call 1 (failing "status store unavailable")]

private def rewritten : Plainly True :=
  .start (.write (.caller 0) "a" [7] {}) :: List.replicate 3 (.call 0 calm) ++
    .start (.read (.caller 1) "a") :: .call 1 calm ::
    .start (.write (.caller 2) "a" [7, 7] {}) :: List.replicate 3 (.call 2 calm) ++ [.call 1 calm]

private def untold : Plainly False :=
  .start (.write (.caller 0) "a" [7] {}) :: List.replicate 3 (.call 0 calm) ++
    .start (.promote (.caller 1) "a") :: List.replicate 11 (.call 1 terse) ++
    .start (.read (.caller 2) "a") :: List.replicate 2 (.call 2 calm)

private def plainHit : Plainly True :=
  .start (.write (.caller 0) "a" [7] {}) :: List.replicate 3 (.call 0 calm) ++
    .start (.read (.caller 1) "a") :: List.replicate 2 (.call 1 calm)

private def findsRows (op : Operation) (_ : History pipeline) (_ : Node) (q : Request)
    (reply : q.Reply) : Bool :=
  match op with
  | .read _ _ => !missedLookup q reply
  | _ => true

private theorem findsRows_sound (op : Operation) (history : History pipeline) (w : Node) (q : Request)
    (reply : q.Reply) (checked : findsRows op history w q reply = true) :
    LookupsFound op history w q reply := by
  rintro ctx b rfl
  simpa [findsRows] using checked

/-- A Read of a written blob whose status lookup fails; a Read overtaken by a Write
of another body; a Read from a cache of the largest capacity; and a Read of a blob whose
upload the store answered without size and checksum. -/
theorem read_misdescribes :
    (∃ s, (nodeMachine {} (Plain True) (SameBody (sevens True))
      fun _ _ _ _ _ => True).Reaches
      ⟨bareNode, []⟩ s ∧ Misdescribed s) ∧
    (∃ s, (nodeMachine {} (Plain True) (fun _ => True) LookupsFound).Reaches
      ⟨bareNode, []⟩ s ∧ Misdescribed s) ∧
    (∃ s, (nodeMachine {} (Plain True) (SameBody (sevens True)) LookupsFound).Reaches
      ⟨{ cache := lruCache maxInt64, store := {} }, []⟩ s ∧ Misdescribed s) ∧
    ∃ s, (nodeMachine {} (Plain False) (SameBody (sevens False))
      LookupsFound).Reaches ⟨bareNode, []⟩ s ∧ Misdescribed s := by
  refine ⟨?_, ?_, ?_, ?_⟩
  · exact follow_exhibits (fun _ _ _ _ _ => true) lookupFails (fun _ _ _ _ _ _ => trivial)
      (by simp [lookupFails, SameBody, sevens]) (by decide +kernel)
  · exact follow_exhibits findsRows rewritten findsRows_sound (fun _ _ => trivial) (by decide +kernel)
  · exact follow_exhibits findsRows plainHit findsRows_sound (by simp [plainHit, SameBody, sevens])
      (by decide +kernel)
  · exact follow_exhibits findsRows untold findsRows_sound (by simp [untold, SameBody, sevens])
      (by decide +kernel)

/-- A Read of a written blob. -/
theorem read_describes_hit : ∃ s t result,
    (nodeMachine {} (Plain True) (SameBody (sevens True)) LookupsFound).Reaches
      ⟨bareNode, []⟩ s ∧ t ∈ s.threads ∧
    returnedRead t = some result ∧ result.body.failure = none ∧
    result.size = result.body.data.length ∧
    result.checksumSHA256 = checksumSHA256 result.body.data := by
  have exhibited : ∃ s, (nodeMachine {} (Plain True) (SameBody (sevens True))
      LookupsFound).Reaches ⟨bareNode, []⟩ s ∧
      s.threads.filterMap returnedRead ≠ [] :=
    follow_exhibits findsRows plainHit findsRows_sound (by simp [plainHit, SameBody, sevens])
      (by decide +kernel)
  obtain ⟨s, run, some⟩ := exhibited
  obtain ⟨result, found⟩ := List.exists_mem_of_ne_nil _ some
  obtain ⟨t, member, returned⟩ := List.mem_filterMap.mp found
  exact ⟨s, t, result, run, member, returned, read_describes default_restoresWhole
    bareNode_fresh (by decide) trivial run member returned⟩

end KDrive.Blobio
