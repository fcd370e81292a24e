import KDrive.Server.ContentWorld

/-! The dev mode keeps its contents in two maps, `memContentStore` and `memContentChunks`, which
are written and evicted together. They are the two halves of the one map of the world: putting
into both is putting into that one, and what is read from both is what it has. -/
namespace KDrive.Server

/-- Each map as its pairs, in the order of one walk over it. -/
structure MemMaps where
  store : List (String × MemContentEntry) := []
  chunks : List (String × List ContentChunk) := []

namespace MemMaps

def delete (m : MemMaps) (key : String) : MemMaps :=
  ⟨m.store.filter fun pair => pair.1 ≠ key, m.chunks.filter fun pair => pair.1 ≠ key⟩

/-- The key that a loop over a map meets first. -/
def firstKey (order : Nat) (pairs : List (String × β)) : Option String :=
  (pairs[order % pairs.length]?).map Prod.fst

/-- The body of such a loop, which deletes the key from both maps and breaks. -/
def evict (m : MemMaps) (first : Option String) : MemMaps := first.elim m m.delete

/-- `putMemContent`, as the source has it. -/
def put (max order : Nat) (key : String) (entry : MemContentEntry) (chunks : List ContentChunk)
    (m : MemMaps) : MemMaps :=
  let m := if m.store.length ≥ max then m.evict (firstKey order m.store) else m
  let m := if 0 < max ∧ m.chunks.length > max * 10 then m.evict (firstKey order m.chunks) else m
  ⟨(key, entry) :: (m.delete key).store, (key, chunks) :: (m.delete key).chunks⟩

/-- The walk of `handleContentCheckChunks`, which looks the chunks of each entry up. -/
def range (m : MemMaps) : List MemContent :=
  m.store.map fun (key, entry) =>
    ⟨entry, ((m.chunks.find? fun pair => pair.1 = key).map Prod.snd).getD []⟩

def halves (mem : List (String × MemContent)) : MemMaps :=
  ⟨mem.map fun pair => (pair.1, pair.2.toMemContentEntry), mem.map fun pair => (pair.1, pair.2.chunks)⟩

variable {mem : List (String × MemContent)}

theorem delete_halves (key : String) :
    (halves mem).delete key = halves (mem.filter fun pair => pair.1 ≠ key) := by
  simp only [halves, delete, List.filter_map]
  rfl

variable (keys : (mem.map Prod.fst).Nodup)
include keys

/-- The pair of a key is the only one with it. -/
theorem filter_key (inside : i < mem.length) :
    (mem.filter fun pair => pair.1 ≠ mem[i].1) = mem.eraseIdx i := by
  have nodup : mem.Nodup := keys.of_map
  rw [← nodup.erase_getElem i inside, nodup.erase_eq_filter]
  refine List.filter_congr fun pair member => ?_
  have same : pair.1 = mem[i].1 ↔ pair = mem[i] :=
    ⟨List.inj_on_of_nodup_map keys member (List.getElem_mem inside), congrArg Prod.fst⟩
  simp only [ne_eq, same, bne, beq_eq_decide, decide_not]

theorem evict_halves {f : String × MemContent → String × β}
    (named : ∀ pair, (f pair).1 = pair.1) (order : Nat) (p : Prop) [Decidable p] :
    (if p then (halves mem).evict (firstKey order (mem.map f)) else halves mem) =
      halves (if p then mem.eraseIdx (order % mem.length) else mem) := by
  split
  · rw [firstKey, List.length_map, List.getElem?_map, Option.map_map]
    by_cases inside : order % mem.length < mem.length
    · rw [List.getElem?_eq_getElem inside, ← filter_key keys inside, ← delete_halves, ← named]
      rfl
    · rw [List.getElem?_eq_none (by omega), List.eraseIdx_of_length_le (by omega)]
      rfl
  · rfl

theorem put_halves (max order : Nat) (key : String) (content : MemContent) :
    (halves mem).put max order key content.toMemContentEntry content.chunks =
      halves (putMemContent max order key content mem) := by
  have lengths (mem : List (String × MemContent)) :
      (halves mem).store.length = mem.length ∧ (halves mem).chunks.length = mem.length := by
    simp [halves]
  unfold put putMemContent
  rw [(lengths mem).1]
  have first : (if mem.length ≥ max then (halves mem).evict (firstKey order (halves mem).store)
      else halves mem) = _ :=
    evict_halves keys (f := fun pair => (pair.1, pair.2.toMemContentEntry)) (fun _ => rfl) order _
  rw [first]
  generalize left : (if mem.length ≥ max then mem.eraseIdx (order % mem.length) else mem) = mem₁
  have keys₁ : (mem₁.map Prod.fst).Nodup := by
    rw [← left]
    split
    · exact keys.sublist ((List.eraseIdx_sublist ..).map Prod.fst)
    · exact keys
  have second : (if 0 < max ∧ mem₁.length > max * 10 then
      (halves mem₁).evict (firstKey order (halves mem₁).chunks) else halves mem₁) = _ :=
    evict_halves keys₁ (f := fun pair => (pair.1, pair.2.chunks)) (fun _ => rfl) order _
  dsimp only
  rw [(lengths mem₁).2, second, delete_halves]
  rfl

omit keys in
theorem get_halves (key : String) :
    ((halves mem).store.find? fun pair => pair.1 = key).map Prod.snd =
      (lookupMem mem key).map MemContent.toMemContentEntry := by
  simp only [halves, lookupMem, List.find?_map, Option.map_map]
  rfl

theorem range_halves : (halves mem).range = mem.map Prod.snd := by
  unfold range
  rw [halves, List.map_map]
  refine List.map_congr_left fun pair member => ?_
  have found : mem.find? (fun other => other.1 = pair.1) = some pair := by
    cases found : mem.find? fun other => other.1 = pair.1 with
    | none => simpa using List.find?_eq_none.mp found pair member
    | some other =>
      have same : other.1 = pair.1 := by simpa using List.find?_some found
      rw [List.inj_on_of_nodup_map keys (List.mem_of_find?_eq_some found) member same]
  simp [List.find?_map, Function.comp_def, found]

end MemMaps

/-- What the locked sections do with the two maps, in place of the one of the world. -/
structure TwoMaps (w : World) : Prop where
  put : ∀ order key content,
    (MemMaps.halves w.mem).put w.memMax order key content.toMemContentEntry content.chunks =
      .halves (putMemContent w.memMax order key content w.mem)
  get : ∀ key, ((MemMaps.halves w.mem).store.find? fun pair => pair.1 = key).map Prod.snd =
    (lookupMem w.mem key).map MemContent.toMemContentEntry
  range : (MemMaps.halves w.mem).range = w.mem.map Prod.snd

theorem twoMaps (keys : (w.mem.map Prod.fst).Nodup) : TwoMaps w :=
  ⟨MemMaps.put_halves keys w.memMax, MemMaps.get_halves, MemMaps.range_halves keys⟩

end KDrive.Server
