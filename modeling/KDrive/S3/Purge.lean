import KDrive.S3.Bucket
import Mathlib.Data.List.Nodup

/-! What `PurgeAllVersions` removes from a bucket. The listing resumes after a whole key, so
the loop sees the items of its key on the first page only, and it does not look at the
objects a batch could not delete. -/
namespace KDrive.S3
open Go Blobstore Interaction Paging Service

section Output
variable {key : String} {id : ObjectIdentifier} {found : Page Item String}

theorem mem_purged : id ∈ Provider.purged key (versionOutput found) ↔
    ∃ item ∈ found.entries, item.key = key ∧ item.id = id := by
  constructor
  · intro member
    rcases List.mem_append.mp member with version | marker
    · obtain ⟨v, listed, rfl⟩ := List.mem_map.mp version
      obtain ⟨listed, same⟩ := List.mem_filter.mp listed
      obtain ⟨item, inside, isVersion⟩ := List.mem_filterMap.mp listed
      cases item with
      | deleteMarker d => contradiction
      | version v' =>
        cases isVersion
        have same : v.key = key := by simpa using same
        exact ⟨_, inside, same, by rw [← same]; rfl⟩
    · obtain ⟨d, listed, rfl⟩ := List.mem_map.mp marker
      obtain ⟨listed, same⟩ := List.mem_filter.mp listed
      obtain ⟨item, inside, isMarker⟩ := List.mem_filterMap.mp listed
      cases item with
      | version v => contradiction
      | deleteMarker d' =>
        cases isMarker
        have same : d.key = key := by simpa using same
        exact ⟨_, inside, same, by rw [← same]; rfl⟩
  · rintro ⟨item, inside, rfl, rfl⟩
    cases item with
    | version v =>
      refine List.mem_append_left _ (List.mem_map.mpr ⟨v, ?_, rfl⟩)
      refine List.mem_filter.mpr ⟨List.mem_filterMap.mpr ⟨_, inside, rfl⟩, ?_⟩
      exact decide_eq_true rfl
    | deleteMarker d =>
      refine List.mem_append_right _ (List.mem_map.mpr ⟨d, ?_, rfl⟩)
      refine List.mem_filter.mpr ⟨List.mem_filterMap.mpr ⟨_, inside, rfl⟩, ?_⟩
      exact decide_eq_true rfl

theorem passedKey_iff : Provider.passedKey key (versionOutput found) = true ↔
    ∃ item ∈ found.entries, key < item.key := by
  simp only [Provider.passedKey, versionOutput, Bool.or_eq_true, List.any_eq_true,
    List.mem_filterMap, decide_eq_true_eq]
  constructor
  · rintro (⟨v, ⟨item, inside, isVersion⟩, behind⟩ | ⟨d, ⟨item, inside, isMarker⟩, behind⟩)
    · cases item with
      | deleteMarker d => contradiction
      | version v' => cases isVersion; exact ⟨_, inside, behind⟩
    · cases item with
      | version v => contradiction
      | deleteMarker d' => cases isMarker; exact ⟨_, inside, behind⟩
  · rintro ⟨item, inside, behind⟩
    cases item with
    | version v => exact .inl ⟨v, ⟨_, inside, rfl⟩, behind⟩
    | deleteMarker d => exact .inr ⟨d, ⟨_, inside, rfl⟩, behind⟩

end Output

/-- Of the items of the key, those on the first page. -/
def Service.listed (s : Service) (key : String) : List Item :=
  (s.bucket.ofKey key).take (s.turn.pageLength 1000)

section Pages
variable {p : Provider} {s : Service} {key : String}

abbrev firstPage (s : Service) (key : String) : Page Item String := s.versionPage ⟨key, none, 1000⟩

theorem firstPage_entries :
    (firstPage s key).entries = (s.bucket.under key).take (s.turn.pageLength 1000) :=
  page_entries _ _

theorem mem_listed {item : Item} :
    item ∈ s.listed key ↔ item ∈ (firstPage s key).entries ∧ item.key = key := by
  have first := take_least (s.bucket.under_least key) (s.bucket.under_ordered key)
    (s.turn.pageLength 1000)
  rw [Bucket.under_ofKey] at first
  rw [listed, ← first, firstPage_entries, List.mem_filter, decide_eq_true_eq]

theorem mem_firstPage {item : Item} (inside : item ∈ (firstPage s key).entries) :
    item ∈ s.bucket.items ∧ key ≤ item.key := by
  rw [firstPage_entries] at inside
  have under := List.mem_of_mem_take inside
  exact ⟨List.mem_of_mem_filter under, s.bucket.under_least key item under⟩

/-- An identifier stands for one item. -/
theorem purged_iff {item : Item} (member : item ∈ s.bucket.items) :
    item.id ∈ Provider.purged key (versionOutput (firstPage s key)) ↔ item ∈ s.listed key := by
  rw [mem_purged, mem_listed]
  constructor
  · rintro ⟨other, inside, own, same⟩
    have distinct := List.inj_on_of_nodup_map s.bucket.distinct
    rw [← distinct (mem_firstPage inside).1 member same]
    exact ⟨inside, own⟩
  · rintro ⟨inside, own⟩
    exact ⟨item, inside, own, rfl⟩

/-- As long as no other key shows up, the listing goes on behind this one. -/
theorem firstPage_next (further : (firstPage s key).next = some k)
    (near : ¬ ∃ item ∈ (firstPage s key).entries, key < item.key) : k = key := by
  obtain ⟨_, front, last, same, rfl⟩ := page_next further
  have inside : last ∈ (firstPage s key).entries := by
    rw [firstPage_entries]
    have shape : (s.bucket.under key).take (s.turn.pageLength 1000) = front ++ [last] := same
    rw [shape]
    exact List.mem_append_right _ List.mem_cons_self
  refine le_antisymm (not_lt.mp fun behind => near ⟨last, inside, behind⟩) ?_
  exact (mem_firstPage inside).2

/-- From behind the key, one page is enough and nothing is deleted. -/
theorem purgePages_behind (p : Provider) (s : Service) (key : String) (rounds : Nat) : ∃ result,
    (p.purgePages key (rounds + 1) (some key)).run serve s = some (some result, s.next) ∧
      (s.turn.fault = none → result = .ok ()) := by
  have served : serve s (.listObjectVersions ⟨key, some key, 1000⟩) =
    some (s.answer (versionOutput (s.versionPage ⟨key, some key, 1000⟩)), s.next) := rfl
  simp only [Provider.purgePages]
  rw [run_ask served]
  cases fault : s.turn.fault with
  | some err =>
    simp only [answer, fault]
    exact ⟨_, rfl, nofun⟩
  | none =>
    simp only [answer, fault]
    have behind : ∀ item ∈ (s.versionPage ⟨key, some key, 1000⟩).entries, key < item.key := by
      intro item inside
      rw [versionPage, page_entries] at inside
      exact of_decide_eq_true (List.mem_filter.mp (List.mem_of_mem_take inside)).2
    have nothing : Provider.purged key (versionOutput (s.versionPage ⟨key, some key, 1000⟩)) = [] := by
      refine List.eq_nil_iff_forall_not_mem.mpr fun id member => ?_
      obtain ⟨item, inside, own, _⟩ := mem_purged.mp member
      exact absurd own (ne_of_gt (behind item inside))
    rw [if_pos nothing]
    have ending : Provider.passedKey key (versionOutput (s.versionPage ⟨key, some key, 1000⟩)) = true ∨
        ¬ (versionOutput (s.versionPage ⟨key, some key, 1000⟩)).isTruncated = true := by
      cases next : (s.versionPage ⟨key, some key, 1000⟩).next with
      | none =>
        right
        simp [versionOutput, next]
      | some k =>
        left
        obtain ⟨_, front, last, same, _⟩ := page_next next
        refine passedKey_iff.mpr ⟨last, ?_, behind last ?_⟩ <;>
        · rw [versionPage, page_entries, same]
          exact List.mem_append_right _ List.mem_cons_self
    rw [if_pos ending]
    exact ⟨_, rfl, fun _ => rfl⟩

/-- After the first page the loop is over, now or with one more page. -/
theorem purgePages_rest (p : Provider) (s s₁ : Service) (key : String) (rounds : Nat) : ∃ result s',
    (if Provider.passedKey key (versionOutput (firstPage s key)) = true ∨
        ¬ (versionOutput (firstPage s key)).isTruncated = true then pure (some (.ok ()))
      else p.purgePages key (rounds + 1) (versionOutput (firstPage s key)).nextKeyMarker).run
        serve s₁ = some (some result, s') ∧
      s'.bucket = s₁.bucket ∧ (s₁.turn.fault = none → result = .ok ()) := by
  split
  · exact ⟨_, s₁, rfl, rfl, fun _ => rfl⟩
  · rename_i further
    obtain ⟨near, truncated⟩ := not_or.mp further
    obtain ⟨k, next⟩ := Option.isSome_iff_exists.mp (not_not.mp truncated)
    obtain rfl := firstPage_next next fun behind => near (passedKey_iff.mpr behind)
    have marker : (versionOutput (firstPage s k)).nextKeyMarker = some k := next
    rw [marker]
    obtain ⟨result, ran, calm⟩ := purgePages_behind p s₁ k rounds
    exact ⟨result, s₁.next, ran, rfl, calm⟩

/-- What a purge with this result did to the bucket. -/
structure Purged (s : Service) (key : String) (result : Except GoError Unit) (s' : Service)
    (picked : Item → Bool) : Prop where
  items : s'.bucket.items = s.bucket.items.filter fun item => !picked item
  own : ∀ item, picked item = true → item.key = key
  exact : result = .ok () → ∀ item ∈ s.bucket.items,
    (picked item = true ↔ item ∈ s.listed key ∧ (s.turns 1).rejects item.id = false)
  calm : (∀ i, (s.turns i).fault = none) → result = .ok ()

theorem purgePages_spec (p : Provider) (s : Service) (key : String) (rounds : Nat) :
    ∃ result s' picked, (p.purgePages key (rounds + 2) none).run serve s = some (some result, s') ∧
      Purged s key result s' picked := by
  have served : serve s (.listObjectVersions ⟨key, none, 1000⟩) =
    some (s.answer (versionOutput (firstPage s key)), s.next) := rfl
  simp only [Provider.purgePages]
  rw [run_ask served]
  cases fault : s.turn.fault with
  | some err =>
    simp only [answer, fault]
    refine ⟨_, _, fun _ => false, rfl, by simp [next], nofun, nofun, fun calm => ?_⟩
    rw [turn, calm 0] at fault
    contradiction
  | none =>
    simp only [answer, fault]
    by_cases nothing : Provider.purged key (versionOutput (firstPage s key)) = []
    · rw [if_pos nothing]
      obtain ⟨result, s', ran, same, ending⟩ := purgePages_rest p s s.next key rounds
      refine ⟨result, s', fun _ => false, ran, by rw [same]; simp [next], nofun, ?_,
        fun calm => ending (calm 1)⟩
      intro _ item member
      have unlisted : item ∉ s.listed key := by
        rw [← purged_iff member, nothing]
        exact List.not_mem_nil
      simp [unlisted]
    · rw [if_neg nothing]
      generalize batch : Provider.purged key (versionOutput (firstPage s key)) = objects
      have deleted : serve s.next (.deleteObjects objects) =
        some (s.next.answer (objects.filter s.next.turn.rejects),
          { s.next.next with bucket := s.next.bucket.remove (deletes s.next.turn objects) }) := rfl
      rw [run_ask deleted]
      have own : ∀ item, deletes s.next.turn objects item = true → item.key = key := by
        intro item gone
        have member : item.id ∈ objects := by
          simpa using (Bool.and_eq_true_iff.mp gone).1
        rw [← batch] at member
        obtain ⟨other, _, own, same⟩ := mem_purged.mp member
        rw [← own, Item.key, ← same]
        rfl
      cases failed : s.next.turn.fault with
      | some err =>
        simp only [answer, failed]
        refine ⟨_, _, deletes s.next.turn objects, rfl, rfl, own, nofun, fun calm => ?_⟩
        rw [turn, next, calm 1] at failed
        contradiction
      | none =>
        simp only [answer, failed]
        obtain ⟨result, s', ran, same, ending⟩ := purgePages_rest p s
          { s.next.next with bucket := s.next.bucket.remove (deletes s.next.turn objects) } key rounds
        refine ⟨result, s', deletes s.next.turn objects, ran, by rw [same]; rfl, own, ?_,
          fun calm => ending (calm 2)⟩
        intro _ item member
        rw [← purged_iff member, batch]
        simp [deletes, turn, next]

end Pages

/-- On the first page there is room for everything the key has, and no deletion of it is
rejected. -/
def Purgeable (s : Service) (key : String) : Prop :=
  (s.bucket.ofKey key).length ≤ s.turn.pageLength 1000 ∧
    ∀ item ∈ s.bucket.ofKey key, (s.turns 1).rejects item.id = false

/-- The first page has room for all of the key. -/
theorem listed_all_iff {s : Service} {key : String} :
    (∀ item ∈ s.bucket.ofKey key, item ∈ s.listed key) ↔
      (s.bucket.ofKey key).length ≤ s.turn.pageLength 1000 := by
  have distinct : (s.bucket.ofKey key).Nodup := s.bucket.distinct.of_map.filter _
  constructor
  · intro all
    by_contra more
    have some : (s.bucket.ofKey key).drop (s.turn.pageLength 1000) ≠ [] := by
      rw [Ne, List.drop_eq_nil_iff]
      exact more
    obtain ⟨item, late⟩ := List.exists_mem_of_ne_nil _ some
    exact List.disjoint_take_drop distinct le_rfl (all item (List.mem_of_mem_drop late)) late
  · intro room item member
    rw [Service.listed, List.take_of_length_le room]
    exact member

theorem Purged.erased_iff (purged : Purged s key (.ok ()) s' picked) :
    s'.bucket.ofKey key = [] ↔ Purgeable s key := by
  have left : s'.bucket.ofKey key = [] ↔ ∀ item ∈ s.bucket.ofKey key, picked item = true := by
    simp only [Bucket.ofKey, purged.items, List.filter_filter, List.filter_eq_nil_iff,
      List.mem_filter]
    grind
  rw [left, Purgeable, ← listed_all_iff, ← forall₂_and]
  exact forall₂_congr fun item member => purged.exact rfl item (List.mem_of_mem_filter member)

/-- The paging ends, other keys keep what they have, and a purge that reports success has
removed everything of its key exactly if that was on the first page and the batch was
deleted in full. -/
theorem purgeAllVersions_erases_iff (p : Provider) (s : Service) (key : String) (rounds : Nat) :
    ∃ result s', (p.purgeAllVersions (rounds + 2) key).run serve s = some (some result, s') ∧
      (s'.bucket.items.filter fun item => item.key ≠ key) =
        (s.bucket.items.filter fun item => item.key ≠ key) ∧
      (result = .ok () → (s'.bucket.ofKey key = [] ↔ Purgeable s key)) ∧
      (key ≠ "" → (∀ i, (s.turns i).fault = none) → result = .ok ()) := by
  by_cases empty : key = ""
  · refine ⟨.error (p.missing "key is required"), s, ?_, rfl, nofun, fun named => absurd empty named⟩
    simp only [Provider.purgeAllVersions, if_pos empty]
    rfl
  · obtain ⟨result, s', picked, ran, purged⟩ := purgePages_spec p s key rounds
    refine ⟨result, s', ?_, ?_, ?_, fun _ => purged.calm⟩
    · rw [Provider.purgeAllVersions, if_neg empty]
      exact ran
    · rw [purged.items, List.filter_filter]
      refine List.filter_congr fun item _ => ?_
      cases gone : picked item with
      | false => simp
      | true => simp [purged.own item gone]
    · rintro rfl
      exact purged.erased_iff

/-- So many versions of one key. -/
def stack (count : Nat) : Bucket where
  items := (List.range count).map fun i =>
    .version { key := "k", versionId := String.ofList (List.replicate i 'v') }
  uploads := []
  ordered := List.pairwise_map.mpr (List.pairwise_of_forall fun _ _ => le_rfl)
  distinct := by
    rw [List.map_map]
    refine List.nodup_range.map fun i j same => ?_
    have texts := congrArg (fun id => id.versionId.toList.length) same
    simpa [Item.id] using texts
  uploadsOrdered := .nil
  uploadsNamed := nofun

theorem stack_length (count : Nat) : ((stack count).ofKey "k").length = count := by
  have own : (stack count).ofKey "k" = (stack count).items := by
    refine List.filter_eq_self.mpr fun item member => ?_
    obtain ⟨i, _, rfl⟩ := List.mem_map.mp member
    rfl
  rw [own]
  simp [stack]

/-- A page is full at a thousand: the last version is left and success is reported. -/
theorem purge_leaves_last : ∃ s',
    (Provider.purgeAllVersions { providerName := "s3", bucket := "b" } 2 "k").run serve
      ⟨stack 1001, fun _ => { size := 1000 }⟩ = some (some (.ok ()), s') ∧
    s'.bucket.ofKey "k" ≠ [] := by
  obtain ⟨result, s', picked, ran, purged⟩ := purgePages_spec { providerName := "s3", bucket := "b" }
    ⟨stack 1001, fun _ => { size := 1000 }⟩ "k" 0
  obtain rfl := purged.calm fun _ => rfl
  rw [Provider.purgeAllVersions, if_neg (by decide)]
  refine ⟨s', ran, fun erased => ?_⟩
  have room := (purged.erased_iff.mp erased).1
  simp [turn, Turn.pageLength, stack_length] at room

end KDrive.S3
