import KDrive.LocalFsDev.Host
import Mathlib.Algebra.Order.BigOperators.Group.List

/-! The names of the files: version IDs and part numbers as texts, the suffixes that tell
bodies, sidecars and temporary files apart, and where a valid key leads. -/
namespace KDrive.LocalFsDev
open Go Blobstore Filesystem
variable {id : String}

section Digits

theorem digitChar_of_mem_toDigits {base : Nat} (several : 1 < base) (n : Nat) :
    ∀ c ∈ Nat.toDigits base n, ∃ d < base, c = d.digitChar := by
  induction n using Nat.strong_induction_on with
  | _ n ih =>
    intro c member
    by_cases small : n < base
    · rw [Nat.toDigits_of_lt_base small, List.mem_singleton] at member
      exact ⟨n, small, member⟩
    · rw [Nat.toDigits_of_base_le several (not_lt.mp small), List.mem_append,
        List.mem_singleton] at member
      rcases member with earlier | rfl
      · exact ih (n / base) (Nat.div_lt_self (by omega) several) c earlier
      · exact ⟨n % base, Nat.mod_lt _ (by omega), rfl⟩

theorem mem_zeros (member : c ∈ zeros width digits) : c = '0' ∨ c ∈ digits := by
  rcases List.mem_append.mp member with padding | digit
  · exact .inl (List.eq_of_mem_replicate padding)
  · exact .inr digit

/-- Leading zeros do not change a number. -/
theorem ofDigitChars_zeros (width : Nat) (digits : List Char) :
    Nat.ofDigitChars 10 (zeros width digits) 0 = Nat.ofDigitChars 10 digits 0 := by
  unfold zeros
  induction width - digits.length with
  | zero => rfl
  | succ n ih =>
    rw [List.replicate_succ, List.cons_append, Nat.ofDigitChars_cons]
    exact ih

end Digits

/-- A version ID has lower-case hexadecimal digits and a dash. -/
theorem versionText_chars (nano seq : Nat) :
    ∀ c ∈ (versionText nano seq).toList, c = '-' ∨ ∃ d < 16, c = d.digitChar := by
  have hex : ∀ width n, ∀ c ∈ zeros width (Nat.toDigits 16 n), ∃ d < 16, c = d.digitChar := by
    intro width n c member
    rcases mem_zeros member with rfl | digit
    · exact ⟨0, by decide, rfl⟩
    · exact digitChar_of_mem_toDigits (by decide) n c digit
  intro c member
  rw [versionText, String.toList_ofList, List.mem_append, List.mem_cons] at member
  rcases member with first | dash | second
  · exact .inr (hex 16 nano c first)
  · exact .inl dash
  · exact .inr (hex 8 seq c second)

def IsVersionID (id : String) : Prop := ∃ nano seq, id = versionText nano seq

section
variable (issued : IsVersionID id)
include issued

theorem IsVersionID.chars : ∀ c ∈ id.toList, c = '-' ∨ ∃ d < 16, c = d.digitChar := by
  obtain ⟨nano, seq, rfl⟩ := issued
  exact versionText_chars nano seq

theorem IsVersionID.not_mem (other : c ≠ '-')
    (letter : ∀ d < 16, c ≠ Nat.digitChar d) : c ∉ id.toList := by
  intro member
  rcases issued.chars c member with dash | ⟨d, small, digit⟩
  · exact other dash
  · exact letter d small digit

theorem IsVersionID.noSlash : '/' ∉ id.toList :=
  issued.not_mem (by decide) (by decide)

theorem IsVersionID.noDot : '.' ∉ id.toList :=
  issued.not_mem (by decide) (by decide)

theorem IsVersionID.ne_empty : id ≠ "" := by
  obtain ⟨nano, seq, rfl⟩ := issued
  intro empty
  have none := congrArg String.toList empty
  rw [versionText, String.toList_ofList] at none
  simp at none

theorem IsVersionID.isName : IsName id := by
  refine ⟨⟨issued.ne_empty, ?_, ?_⟩, issued.noSlash⟩
  · rintro rfl
    exact issued.noDot (by decide)
  · rintro rfl
    exact issued.noDot (by decide)

end

/-- There is always a version ID left. -/
theorem exists_unissued (issued : List String) : ∃ nano seq, versionText nano seq ∉ issued := by
  let total := (issued.map String.length).sum
  refine ⟨0, 16 ^ (total + 1), fun member => ?_⟩
  have short : (versionText 0 (16 ^ (total + 1))).length ≤ total :=
    List.le_sum_of_mem (List.mem_map_of_mem member)
  have digits : ¬ (Nat.toDigits 16 (16 ^ (total + 1))).length ≤ total + 1 := by
    rw [Nat.length_toDigits_le_iff (by decide) (by omega)]
    exact lt_irrefl _
  rw [versionText, String.length_ofList] at short
  simp only [zeros, List.length_append, List.length_cons] at short
  omega

theorem serves_total {setting : Setting} (moves : ∀ now, ∃ next, setting.later now next)
    (w : World) (q : Request) : ∃ reply w', Serves setting w q reply w' := by
  cases q with
  | os c =>
    obtain ⟨random, free⟩ := w.tree.exists_free c
    exact ⟨_, _, .inl ⟨random, free, rfl, rfl⟩⟩
  | now =>
    obtain ⟨next, later⟩ := moves w.clock
    exact ⟨next, _, later, rfl⟩
  | newVersionID =>
    obtain ⟨nano, seq, unissued⟩ := exists_unissued w.issued
    exact ⟨(nano, seq), _, unissued, rfl⟩

theorem calm_total : ∀ w q, ∃ reply w', serves calm w q reply w' :=
  serves_total fun now => ⟨now, trivial⟩

/-- Three characters are enough for a name. -/
theorem isName_of_length {text : String} (long : 3 ≤ text.length) (noSlash : '/' ∉ text.toList) :
    IsName text := by
  have differs : ∀ other : String, other.length < 3 → text ≠ other := by
    rintro other short rfl
    omega
  exact ⟨⟨differs _ (by decide), differs _ (by decide), differs _ (by decide)⟩, noSlash⟩

/-- A name with a suffix is one, whatever comes before. -/
theorem isName_append {id suf : String} (noSlash : '/' ∉ id.toList) (long : 3 ≤ suf.length)
    (plain : '/' ∉ suf.toList) : IsName (id ++ suf) := by
  refine isName_of_length ?_ ?_
  · rw [String.length_append]
    omega
  · rw [String.toList_append, List.mem_append]
    exact fun either => either.elim noSlash plain

theorem isDigit_of_mem_toString {random : Nat} (member : c ∈ (toString random).toList) :
    c.isDigit = true := by
  rw [Nat.toString_eq_ofList_toDigits, String.toList_ofList] at member
  exact Nat.isDigit_of_mem_toDigits (by decide) (by decide) member

theorem isName_temp (random : Nat) : IsName (".tmp-" ++ toString random) := by
  refine isName_of_length ?_ ?_
  · rw [String.length_append]
    exact (by decide : 3 ≤ ".tmp-".length).trans (Nat.le_add_right _ _)
  · rw [String.toList_append, List.mem_append]
    rintro (start | digit)
    · exact absurd start (by decide)
    · exact absurd (isDigit_of_mem_toString digit) (by decide)

theorem append_ne {first second x y : String} {c d : Char} (firstEnds : x.toList.getLast? = some c)
    (secondEnds : y.toList.getLast? = some d) (differ : c ≠ d) : first ++ x ≠ second ++ y := by
  intro same
  have lists := congrArg (fun text : String => text.toList.getLast?) same
  simp only [String.toList_append, List.getLast?_append, firstEnds, secondEnds] at lists
  exact differ (Option.some.inj lists)

theorem append_ne_staging {start suf : String} {c : Char} (ends : suf.toList.getLast? = some c)
    (other : c ≠ 't') : start ++ suf ≠ "_multipart" := by
  have last : "_multipart".toList.getLast? = some 't' := by decide
  rw [← String.empty_append (s := "_multipart")]
  exact append_ne ends last other

theorem append_right_cancel {first second x : String} (same : first ++ x = second ++ x) :
    first = second := by
  have lists := congrArg String.toList same
  rw [String.toList_append, String.toList_append] at lists
  exact String.toList_inj.mp (List.append_cancel_right lists)

/-- The name of a sidecar, or of the file it is first written to. -/
def IsJSONName (name : String) : Prop :=
  ∃ stem, name = stem ++ ".json" ∨ name = stem ++ ".json" ++ ".tmp"

theorem json_ne_bin (first second : String) : first ++ ".json" ≠ second ++ ".bin" := by
  have json : ".json".toList = ['.', 'j', 's', 'o', 'n'] := rfl
  have bin : ".bin".toList = ['.', 'b', 'i', 'n'] := rfl
  intro same
  have lists := congrArg (fun text : String => text.toList.reverse.take 2) same
  simp [String.toList_append, json, bin] at lists

theorem not_isJSONName_bin (stem : String) : ¬ IsJSONName (stem ++ ".bin") := by
  rintro ⟨other, same | same⟩
  · exact json_ne_bin other stem same.symm
  · exact append_ne (by decide : ".bin".toList.getLast? = some 'n')
      (by decide : ".tmp".toList.getLast? = some 'p') (by decide) same

/-- A temporary file has another name than one that ends in a letter. -/
theorem temp_ne {random : Nat} {stem suf : String} (ends : suf.toList.getLast? = some c)
    (letter : c.isDigit = false) : ".tmp-" ++ toString random ≠ stem ++ suf := by
  have some : (toString random).toList ≠ [] := by
    rw [Nat.toString_eq_ofList_toDigits, String.toList_ofList]
    exact Nat.toDigits_ne_nil
  obtain ⟨d, last⟩ := List.getLast?_isSome.mpr some |> Option.isSome_iff_exists.mp
  refine append_ne last ends ?_
  rintro rfl
  rw [isDigit_of_mem_toString (List.mem_of_getLast? last)] at letter
  contradiction

/-- The digits of a part number, behind its sign. -/
theorem toList_partName (n : Int) : (partName n).toList =
    'p' :: 'a' :: 'r' :: 't' :: '-' :: (if n < 0 then '-' :: zeros 4 (Nat.toDigits 10 n.natAbs)
      else zeros 5 (Nat.toDigits 10 n.natAbs)) := by
  have start : "part-".toList = ['p', 'a', 'r', 't', '-'] := rfl
  rw [partName, String.toList_append, start, String.toList_ofList]
  rfl

theorem isDigit_of_mem_zeros (member : c ∈ zeros width (Nat.toDigits 10 n)) : c.isDigit = true := by
  rcases mem_zeros member with rfl | digit
  · decide
  · exact Nat.isDigit_of_mem_toDigits (by decide) (by decide) digit

theorem isName_partName (n : Int) : IsName (partName n) := by
  have starts : ∀ other : String, other.toList.head? ≠ some 'p' → partName n ≠ other := by
    rintro other differs rfl
    exact differs (by rw [toList_partName]; rfl)
  refine ⟨⟨starts _ (by decide), starts _ (by decide), starts _ (by decide)⟩, ?_⟩
  rw [toList_partName]
  intro member
  have digit : '/' ∉ zeros 4 (Nat.toDigits 10 n.natAbs) ∧ '/' ∉ zeros 5 (Nat.toDigits 10 n.natAbs) :=
    ⟨fun found => absurd (isDigit_of_mem_zeros found) (by decide),
      fun found => absurd (isDigit_of_mem_zeros found) (by decide)⟩
  split at member <;> simp [digit.1, digit.2] at member

theorem partName_getLast (n : Int) : ∃ c, (partName n).toList.getLast? = some c ∧
    c.isDigit = true := by
  have digits : ∀ width, ∃ c, (zeros width (Nat.toDigits 10 n.natAbs)).getLast? = some c ∧
      c.isDigit = true := by
    intro width
    have some : zeros width (Nat.toDigits 10 n.natAbs) ≠ [] := by
      simp [zeros, Nat.toDigits_ne_nil]
    obtain ⟨c, last⟩ := Option.isSome_iff_exists.mp (List.getLast?_isSome.mpr some)
    exact ⟨c, last, isDigit_of_mem_zeros (List.mem_of_getLast? last)⟩
  rw [toList_partName]
  split
  · obtain ⟨c, last, digit⟩ := digits 4
    exact ⟨c, by simp [List.getLast?_cons, last], digit⟩
  · obtain ⟨c, last, digit⟩ := digits 5
    exact ⟨c, by simp [List.getLast?_cons, last], digit⟩

theorem partName_ne {n : Int} {stem suf : String} {c : Char} (ends : suf.toList.getLast? = some c)
    (letter : c.isDigit = false) : partName n ≠ stem ++ suf := by
  obtain ⟨d, last, digit⟩ := partName_getLast n
  rw [← String.empty_append (s := partName n)]
  refine append_ne last ends ?_
  rintro rfl
  rw [digit] at letter
  contradiction

theorem natAbs_eq_of_zeros {first second : Int} {width : Nat}
    (same : zeros width (Nat.toDigits 10 first.natAbs) = zeros width (Nat.toDigits 10 second.natAbs)) :
    first.natAbs = second.natAbs := by
  have values := congrArg (Nat.ofDigitChars 10 · 0) same
  simpa only [ofDigitChars_zeros, Nat.ofDigitChars_ten_toDigits] using values

theorem partName_injective : Function.Injective partName := by
  intro first second same
  have lists := congrArg String.toList same
  rw [toList_partName, toList_partName] at lists
  simp only [List.cons.injEq, true_and] at lists
  have unsigned : ∀ width n rest, '-' :: rest ≠ zeros width (Nat.toDigits 10 n) := by
    intro width n rest equal
    have digit := isDigit_of_mem_zeros (c := '-') (by rw [← equal]; exact List.mem_cons_self)
    exact absurd digit (by decide)
  split at lists
  · split at lists
    · have sizes := natAbs_eq_of_zeros (List.cons.inj lists).2
      omega
    · exact absurd lists (unsigned _ _ _)
  · split at lists
    · exact absurd lists.symm (unsigned _ _ _)
    · have sizes := natAbs_eq_of_zeros lists
      omega

theorem validateKey_none : validateKey key = none ↔ key ≠ "" ∧ '\\' ∉ key.toList ∧
    '\x00' ∉ key.toList ∧ (∀ seg ∈ components key, Proper seg) ∧ key ≠ "_multipart" := by
  unfold validateKey
  by_cases empty : key = ""
  · simp [empty]
  by_cases backslash : '\\' ∈ key.toList
  · simp [empty, backslash]
  by_cases nul : '\x00' ∈ key.toList
  · simp [empty, backslash, nul]
  simp only [empty, if_false, List.contains_iff_mem, backslash, nul, ne_eq, not_false_eq_true,
    true_and]
  cases found : (components key).find? fun seg => ¬ Proper seg with
  | none =>
    have all : ∀ seg ∈ components key, Proper seg := by
      simpa using List.find?_eq_none.mp found
    by_cases reserved : key = "_multipart"
    · simp [reserved]
    · simpa [reserved] using all
  | some seg =>
    have improper : ¬ Proper seg := by simpa using List.find?_some found
    have refused : ¬ ∀ seg ∈ components key, Proper seg :=
      fun all => improper (all seg (List.mem_of_find?_eq_some found))
    simp only [refused, false_and, iff_false]
    split <;> simp_all

end KDrive.LocalFsDev
