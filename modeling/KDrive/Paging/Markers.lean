import Mathlib.Data.List.Basic
import Mathlib.Order.Lattice

/-! Listings in key order, served in pages. A request resumes strictly after a key, and a
page that leaves entries out hands back the key of its last one. Several entries may have
the same key; a reader that follows the keys then misses what is left of a key that a page
ends in. -/
namespace Paging
variable {ι κ : Type} {key : ι → κ}

structure Page (ι κ : Type) where
  entries : List ι
  next : Option κ

/-- The first entries, with the marker to go on from unless these are all. -/
def page (key : ι → κ) (size : Nat) (entries : List ι) : Page ι κ :=
  if entries.length ≤ size then ⟨entries, none⟩
  else ⟨entries.take size, (entries.take size).getLast?.map key⟩

theorem page_entries (size : Nat) (entries : List ι) :
    (page key size entries).entries = entries.take size := by
  unfold page
  split
  · exact (List.take_of_length_le ‹_›).symm
  · rfl

theorem page_last (ended : (page key size entries).next = none) (positive : 0 < size) :
    entries.length ≤ size := by
  by_contra more
  have some : 0 < entries.length := by omega
  simp [page, more, List.getLast?_eq_none_iff, List.take_eq_nil_iff] at ended
  rcases ended with rfl | rfl
  · omega
  · simp at some

/-- A page that is not the last one ends in an entry whose key is the marker. -/
theorem page_next (further : (page key size entries).next = some k) :
    size < entries.length ∧ ∃ front e, entries.take size = front ++ [e] ∧ key e = k := by
  unfold page at further
  split at further
  · contradiction
  · rename_i more
    obtain ⟨e, last, rfl⟩ := Option.map_eq_some_iff.mp further
    obtain ⟨front, same⟩ := List.getLast?_eq_some_iff.mp last
    exact ⟨by omega, front, e, same, rfl⟩

/-- The two entries a page that is not the last one ends between. -/
theorem page_boundary (further : (page key size entries).next = some k) :
    ∃ last next rest, entries[size - 1]? = some last ∧ entries[size]? = some next ∧
      key last = k ∧ entries.drop size = next :: rest := by
  obtain ⟨more, front, last, same, rfl⟩ := page_next further
  have length : front.length + 1 = size := by
    have := congrArg List.length same
    simp at this
    omega
  refine ⟨last, entries[size], entries.drop (size + 1), ?_, List.getElem?_eq_getElem more, rfl,
    List.drop_eq_getElem_cons more⟩
  have before : (entries.take size)[size - 1]? = some last := by
    rw [same, ← length]
    simp
  rwa [List.getElem?_take_of_lt (by omega)] at before

/-- Where the pages end, when each goes on right behind the one before. -/
def ends (sizes : Nat → Nat) : Nat → Nat
  | 0 => sizes 0
  | m + 1 => sizes 0 + ends (fun i => sizes (i + 1)) m

/-- No page ends between two entries of one key. -/
def Uncut (key : ι → κ) (sizes : Nat → Nat) (entries : List ι) : Prop :=
  ∀ m (last next : ι), entries[ends sizes m - 1]? = some last → entries[ends sizes m]? = some next →
    key last ≠ key next

variable {sizes : Nat → Nat} {entries : List ι}

theorem le_ends (sizes : Nat → Nat) (m : Nat) : sizes 0 ≤ ends sizes m := by
  cases m with
  | zero => exact le_rfl
  | succ m => exact Nat.le_add_right _ _

theorem uncut_short (short : entries.length ≤ sizes 0) : Uncut key sizes entries := by
  intro m last next _ beyond
  have inside := (List.getElem?_eq_some_iff.mp beyond).1
  have bound := le_ends sizes m
  omega

/-- The first page ends well and so do those that follow. -/
theorem uncut_iff (positive : ∀ i, 0 < sizes i) : Uncut key sizes entries ↔
    (∀ last next, entries[sizes 0 - 1]? = some last → entries[sizes 0]? = some next →
      key last ≠ key next) ∧ Uncut key (fun i => sizes (i + 1)) (entries.drop (sizes 0)) := by
  have shift : ∀ m, (entries.drop (sizes 0))[ends (fun i => sizes (i + 1)) m - 1]? =
      entries[sizes 0 + ends (fun i => sizes (i + 1)) m - 1]? := by
    intro m
    have bound : sizes 1 ≤ ends (fun i => sizes (i + 1)) m :=
      le_ends (fun i => sizes (i + 1)) m
    have first := positive 1
    rw [List.getElem?_drop]
    congr 1
    omega
  constructor
  · intro uncut
    refine ⟨uncut 0, fun m last next before behind => ?_⟩
    rw [shift] at before
    rw [List.getElem?_drop] at behind
    exact uncut (m + 1) last next before behind
  · rintro ⟨first, rest⟩ m last next before behind
    cases m with
    | zero => exact first last next before behind
    | succ m =>
      refine rest m last next ?_ ?_
      · rw [shift]
        exact before
      · rw [List.getElem?_drop]
        exact behind

variable [LinearOrder κ]

abbrev InOrder (key : ι → κ) (entries : List ι) : Prop :=
  entries.Pairwise fun a b => key a ≤ key b

/-- What a request that resumes after the marker still sees. -/
def after (key : ι → κ) (marker : Option κ) (entries : List ι) : List ι :=
  match marker with
  | none => entries
  | some k => entries.filter fun e => k < key e

theorem mem_of_mem_after (member : e ∈ after key marker entries) : e ∈ entries := by
  cases marker with
  | none => exact member
  | some k => exact List.mem_of_mem_filter member

theorem after_inOrder (ordered : InOrder key entries) (marker : Option κ) :
    InOrder key (after key marker entries) := by
  cases marker with
  | none => exact ordered
  | some k => exact ordered.filter _

theorem after_after (later : ∀ k, marker = some k → k < k') :
    after key (some k') (after key marker entries) = after key (some k') entries := by
  cases marker with
  | none => rfl
  | some k =>
    simp only [after, List.filter_filter]
    refine List.filter_congr fun e _ => ?_
    by_cases seen : k' < key e
    · simp [seen, lt_trans (later k rfl) seen]
    · simp [seen]

/-- In order, the entries of a key that bounds all others from below come first. -/
theorem InOrder.split (ordered : InOrder key entries) (least : ∀ e ∈ entries, k ≤ key e) :
    entries = entries.filter (fun e => key e = k) ++ after key (some k) entries := by
  induction entries with
  | nil => rfl
  | cons e rest ih =>
    obtain ⟨first, ordered⟩ := List.pairwise_cons.mp ordered
    have below := least e List.mem_cons_self
    have ih := ih ordered fun e member => least e (List.mem_cons_of_mem _ member)
    by_cases same : key e = k
    · have stays : after key (some k) (e :: rest) = after key (some k) rest := by
        simp [after, same]
      rw [stays, List.filter_cons_of_pos (by simpa using same), List.cons_append, ← ih]
    · have above : k < key e := lt_of_le_of_ne below (Ne.symm same)
      have none : rest.filter (fun e => key e = k) = [] := by
        refine List.filter_eq_nil_iff.mpr fun e' member => ?_
        have := lt_of_lt_of_le above (first e' member)
        simp [ne_of_gt this]
      have all : after key (some k) rest = rest := by
        rw [none, List.nil_append] at ih
        exact ih.symm
      simp only [after] at all
      simp [after, same, above, none, all]

/-- The page that follows: what the one before left out, but for the rest of its last key. -/
theorem after_page (ordered : InOrder key entries)
    (further : (page key size entries).next = some k) :
    after key (some k) entries = after key (some k) (entries.drop size) := by
  obtain ⟨_, front, e, same, rfl⟩ := page_next further
  have bounded : ∀ x ∈ entries.take size, key x ≤ key e := by
    have taken : InOrder key (entries.take size) := ordered.sublist (List.take_sublist _ _)
    rw [same] at taken ⊢
    intro x member
    rcases List.mem_append.mp member with before | last
    · exact (List.pairwise_append.mp taken).2.2 x before e List.mem_cons_self
    · rw [List.mem_singleton.mp last]
  have skipped : after key (some (key e)) (entries.take size) = [] := by
    refine List.filter_eq_nil_iff.mpr fun x member => ?_
    simpa using bounded x member
  calc after key (some (key e)) entries
      = after key (some (key e)) (entries.take size ++ entries.drop size) := by
        rw [List.take_append_drop]
    _ = after key (some (key e)) (entries.drop size) := by
        simp only [after, List.filter_append] at skipped ⊢
        rw [skipped, List.nil_append]

/-- What a reader has who follows the markers through pages of these sizes; `none` if the
end is not reached by the last of so many pages. -/
def follow (key : ι → κ) : Nat → (sizes : Nat → Nat) → List ι → Option (List ι)
  | 0, _, _ => none
  | pages + 1, sizes, entries =>
    match page key (sizes 0) entries with
    | ⟨found, none⟩ => some found
    | ⟨found, some k⟩ =>
      (follow key pages (fun i => sizes (i + 1)) (after key (some k) entries)).map (found ++ ·)

theorem after_lt (further : (page key size entries).next = some k) :
    (after key (some k) entries).length < entries.length := by
  obtain ⟨_, front, e, same, rfl⟩ := page_next further
  refine List.length_filter_lt_length_iff_exists.mpr ⟨e, ?_, by simp⟩
  exact List.mem_of_mem_take (by rw [same]; simp)

/-- Every page gets the reader further. -/
theorem follow_ends (positive : ∀ i, 0 < sizes i) (enough : entries.length < pages) :
    ∃ found, follow key pages sizes entries = some found := by
  induction pages generalizing sizes entries with
  | zero => omega
  | succ pages ih =>
    simp only [follow]
    split
    · exact ⟨_, rfl⟩
    · rename_i found k same
      have further : (page key (sizes 0) entries).next = some k := by rw [same]
      have shorter := after_lt further
      have fits : (after key (some k) entries).length < pages := by omega
      obtain ⟨rest, ran⟩ := ih (fun i => positive (i + 1)) fits
      exact ⟨found ++ rest, by rw [ran]; rfl⟩

/-- The pages a reader goes through: this one is the last, or the marker leads on. -/
theorem follow_cases (ran : follow key (pages + 1) sizes entries = some found) :
    ((page key (sizes 0) entries).next = none ∧ found = entries.take (sizes 0)) ∨
    ∃ k rest, (page key (sizes 0) entries).next = some k ∧
      follow key pages (fun i => sizes (i + 1)) (after key (some k) entries) = some rest ∧
      found = entries.take (sizes 0) ++ rest := by
  have taken : (page key (sizes 0) entries).entries = entries.take (sizes 0) :=
    page_entries (sizes 0) entries
  simp only [follow] at ran
  split at ran
  · rename_i same
    rw [same] at taken ⊢
    cases ran
    exact .inl ⟨rfl, taken⟩
  · rename_i k same
    rw [same] at taken ⊢
    obtain ⟨rest, later, rfl⟩ := Option.map_eq_some_iff.mp ran
    exact .inr ⟨k, rest, rfl, later, by rw [← taken]⟩

theorem follow_sublist (ordered : InOrder key entries)
    (ran : follow key pages sizes entries = some found) : found.Sublist entries := by
  induction pages generalizing sizes entries found with
  | zero => contradiction
  | succ pages ih =>
    rcases follow_cases ran with ⟨_, rfl⟩ | ⟨k, rest, further, later, rfl⟩
    · exact List.take_sublist _ _
    · have rest_sublist := ih (after_inOrder ordered _) later
      rw [after_page ordered further] at rest_sublist
      have dropped := rest_sublist.trans (List.filter_sublist (l := entries.drop (sizes 0)))
      have whole := (List.Sublist.refl (entries.take (sizes 0))).append dropped
      rwa [List.take_append_drop] at whole

/-- Where the keys differ, nothing is skipped at a boundary. -/
theorem after_boundary (ordered : InOrder key (next :: rest)) (above : k < key next) :
    after key (some k) (next :: rest) = next :: rest := by
  refine List.filter_eq_self.mpr fun e member => ?_
  rcases List.mem_cons.mp member with rfl | later
  · simpa using above
  · simpa using lt_of_lt_of_le above ((List.pairwise_cons.mp ordered).1 e later)

/-- Where all keys differ, the next page is what this one left out. -/
theorem after_page_strict (strict : entries.Pairwise fun a b => key a < key b)
    (positive : 0 < size) (further : (page key size entries).next = some k) :
    after key (some k) entries = entries.drop size := by
  have ordered : InOrder key entries := strict.imp le_of_lt
  obtain ⟨last, next, rest, before, behind, rfl, split⟩ := page_boundary further
  have above : key last < key next := by
    obtain ⟨inside, rfl⟩ := List.getElem?_eq_some_iff.mp before
    obtain ⟨inside', rfl⟩ := List.getElem?_eq_some_iff.mp behind
    exact List.pairwise_iff_getElem.mp strict _ _ inside inside' (by omega)
  have tail : InOrder key (entries.drop size) := ordered.sublist (List.drop_sublist _ _)
  rw [after_page ordered further]
  rw [split] at tail ⊢
  exact after_boundary tail above

/-- A reader who follows the markers has everything exactly if no page ends inside a key. -/
theorem follow_eq_iff (ordered : InOrder key entries) (positive : ∀ i, 0 < sizes i)
    (ran : follow key pages sizes entries = some found) :
    found = entries ↔ Uncut key sizes entries := by
  induction pages generalizing sizes entries found with
  | zero => contradiction
  | succ pages ih =>
    rcases follow_cases ran with ⟨ended, rfl⟩ | ⟨k, rest, further, later, rfl⟩
    · have short := page_last ended (positive 0)
      exact ⟨fun _ => uncut_short short, fun _ => List.take_of_length_le short⟩
    · have tail : InOrder key (entries.drop (sizes 0)) := ordered.sublist (List.drop_sublist _ _)
      have goal : entries.take (sizes 0) ++ rest = entries ↔ rest = entries.drop (sizes 0) := by
        constructor
        · intro same
          have parts : entries.take (sizes 0) ++ rest =
              entries.take (sizes 0) ++ entries.drop (sizes 0) := by
            rw [same, List.take_append_drop]
          exact List.append_cancel_left parts
        · rintro rfl
          exact List.take_append_drop _ _
      obtain ⟨last, next, others, before, behind, rfl, split⟩ := page_boundary further
      rw [after_page ordered further] at later
      rw [goal, uncut_iff positive]
      by_cases same : key last = key next
      · -- The page ends inside a key: what follows is at least one entry short.
        have short := (follow_sublist (after_inOrder tail _) later).length_le
        have less : (after key (some (key last)) (entries.drop (sizes 0))).length <
            (entries.drop (sizes 0)).length := by
          refine List.length_filter_lt_length_iff_exists.mpr ⟨next, ?_, by simp [same]⟩
          rw [split]
          exact List.mem_cons_self
        constructor
        · intro whole
          rw [whole] at short
          omega
        · rintro ⟨first, _⟩
          exact absurd same (first last next before behind)
      · have above : key last < key next := by
          have sorted : key last ≤ key next := by
            have pair := List.pairwise_iff_getElem.mp ordered
            obtain ⟨inside, rfl⟩ := List.getElem?_eq_some_iff.mp before
            obtain ⟨inside', rfl⟩ := List.getElem?_eq_some_iff.mp behind
            exact pair _ _ inside inside' (by have := positive 0; omega)
          exact lt_of_le_of_ne sorted same
        have resumes : after key (some (key last)) (entries.drop (sizes 0)) =
            entries.drop (sizes 0) := by
          rw [split] at tail ⊢
          exact after_boundary tail above
        rw [resumes] at later
        rw [ih tail (fun i => positive (i + 1)) later]
        constructor
        · intro uncut
          refine ⟨fun a b atLast atNext => ?_, uncut⟩
          rw [before] at atLast
          rw [behind] at atNext
          cases atLast
          cases atNext
          exact same
        · exact fun both => both.2

/-- What a page has of the least key. -/
theorem take_least (least : ∀ e ∈ entries, k ≤ key e) (ordered : InOrder key entries) (size : Nat) :
    (entries.take size).filter (fun e => key e = k) =
      (entries.filter fun e => key e = k).take size := by
  generalize own : (entries.filter fun e => key e = k) = ours
  generalize rest : after key (some k) entries = others
  have split := ordered.split least
  rw [own, rest] at split
  rw [split, List.take_append, List.filter_append]
  have kept : (ours.take size).filter (fun e => key e = k) = ours.take size := by
    refine List.filter_eq_self.mpr fun e member => ?_
    rw [← own] at member
    exact (List.mem_filter.mp (List.mem_of_mem_take member)).2
  have dropped : (others.take (size - ours.length)).filter (fun e => key e = k) = [] := by
    refine List.filter_eq_nil_iff.mpr fun e member => ?_
    rw [← rest] at member
    have above : k < key e := by simpa using (List.mem_filter.mp (List.mem_of_mem_take member)).2
    simpa using ne_of_gt above
  rw [kept, dropped, List.append_nil]

/-- The least key is read from the first page only. -/
theorem follow_least (least : ∀ e ∈ entries, k ≤ key e) (ordered : InOrder key entries)
    (ran : follow key pages sizes entries = some found) :
    found.filter (fun e => key e = k) =
      (entries.filter fun e => key e = k).take (sizes 0) := by
  cases pages with
  | zero => contradiction
  | succ pages =>
    have first := take_least least ordered (sizes 0)
    rcases follow_cases ran with ⟨_, rfl⟩ | ⟨marker, rest, further, later, rfl⟩
    · exact first
    · obtain ⟨last, next, _, before, _, rfl, _⟩ := page_boundary further
      have bound := least last (List.mem_of_getElem? before)
      have none : rest.filter (fun e => key e = k) = [] := by
        refine List.filter_eq_nil_iff.mpr fun e member => ?_
        have seen := (follow_sublist (after_inOrder ordered _) later).subset member
        have above : key last < key e := by simpa using (List.mem_filter.mp seen).2
        simpa using ne_of_gt (lt_of_le_of_lt bound above)
      rw [List.filter_append, first, none, List.append_nil]

end Paging
