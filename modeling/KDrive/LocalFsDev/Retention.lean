import KDrive.LocalFsDev.Quiet

/-! What `UpdateRetention` makes of the retention a version has, request after request. -/
namespace KDrive.LocalFsDev
open Go Blobstore Filesystem Interaction
variable {p : Provider} {w : World} {held kept : RetentionState} {change : Provider.RetentionChange}

/-- NONE is below GOVERNANCE, which is below COMPLIANCE; no other text is a lock. -/
def rank : RetentionMode → Nat
  | .compliance => 2
  | .governance => 1
  | _ => 0

/-- A date that is there does not move backwards. -/
def NotSooner (before after : Time) : Prop := before ≠ 0 → after ≠ 0 ∧ before ≤ after

/-- A request was answered without weakening what was held. -/
structure Keeps (held : RetentionState) (change : Provider.RetentionChange) (refused : Bool)
    (kept : RetentionState) : Prop where
  compliance : held.mode = .compliance → kept.mode = .compliance ∧
    NotSooner held.retainUntil kept.retainUntil
  extension : change.clearRetention = false → rank held.mode ≤ rank kept.mode ∧
    NotSooner held.retainUntil kept.retainUntil
  legalHold : kept.legalHold = held.legalHold
  refused : refused = true → kept = held

/-- The clear request takes the legal hold with it. -/
def DropsHold (held : RetentionState) (change : Provider.RetentionChange) : Prop :=
  change.clearRetention = true ∧ held.mode ≠ .compliance ∧ held.legalHold = true

/-- A mode that is none of the three, such as the empty one, replaces GOVERNANCE. -/
def LowersMode (held : RetentionState) (change : Provider.RetentionChange) : Prop :=
  change.clearRetention = false ∧ held.mode = .governance ∧
    change.mode ≠ .none ∧ rank change.mode = 0 ∧ Provider.shortens held change = false ∧
    dated (Provider.laterDate held change)

theorem keeps_same : Keeps held change refused held where
  compliance same := ⟨same, fun real => ⟨real, Int.le_refl _⟩⟩
  extension _ := ⟨Nat.le_refl _, fun real => ⟨real, Int.le_refl _⟩⟩
  legalHold := rfl
  refused _ := rfl

theorem notSooner_laterDate (allowed : Provider.shortens held change = false) :
    NotSooner held.retainUntil (Provider.laterDate held change) := by
  intro real
  unfold Provider.laterDate
  split
  · rename_i new
    refine ⟨new, ?_⟩
    simp only [Provider.shortens, decide_eq_false_iff_not, not_and, not_lt] at allowed
    exact allowed new real
  · exact ⟨real, Int.le_refl _⟩

theorem rank_le_one (other : mode ≠ .compliance) : rank mode ≤ 1 := by
  cases mode <;> simp_all [rank]

theorem rank_eq_one_iff : rank mode = 1 ↔ mode = .governance := by
  cases mode <;> simp [rank]

/-- The outcome of a request that is accepted. -/
theorem keeps_updated (accepted : Provider.updatedRetention held change = .ok kept)
    (dates : dated kept.retainUntil) :
    Keeps held change false kept ↔ ¬ DropsHold held change ∧ ¬ LowersMode held change := by
  unfold Provider.updatedRetention at accepted
  split at accepted
  · rename_i locked
    split at accepted
    · contradiction
    · split at accepted
      · contradiction
      · split at accepted
        · contradiction
        · rename_i clear allowed mode
          cases accepted
          have later := notSooner_laterDate (Bool.eq_false_iff.mpr allowed)
          have keeps : Keeps held change false
              { held with retainUntil := Provider.laterDate held change } :=
            ⟨fun same => ⟨same, later⟩, fun _ => ⟨Nat.le_refl _, later⟩, rfl, fun other => by contradiction⟩
          refine iff_of_true keeps ⟨fun drops => drops.2.1 locked, fun lowers => ?_⟩
          exact absurd (locked.symm.trans lowers.2.1) (by decide)
  · rename_i unlocked
    split at accepted
    · rename_i clear
      cases accepted
      constructor
      · intro keeps
        refine ⟨fun drops => ?_, fun lowers => ?_⟩
        · exact absurd (keeps.legalHold.trans drops.2.2) (by decide)
        · exact absurd (clear.symm.trans lowers.1) (by decide)
      · rintro ⟨holds, _⟩
        have free : held.legalHold = false := by
          rw [Bool.eq_false_iff]
          exact fun hold => holds ⟨clear, unlocked, hold⟩
        exact ⟨fun locked => absurd locked unlocked,
          fun other => absurd (clear.symm.trans other) (by decide), free.symm,
          fun other => by contradiction⟩
    · split at accepted
      · contradiction
      · rename_i clear allowed
        rw [Bool.not_eq_true] at clear allowed
        cases accepted
        have later := notSooner_laterDate allowed
        have low := rank_le_one unlocked
        constructor
        · intro keeps
          refine ⟨fun drops => ?_, fun lowers => ?_⟩
          · exact absurd (clear.symm.trans drops.1) (by decide)
          · obtain ⟨_, governance, new, none, _⟩ := lowers
            have kept := (keeps.extension clear).1
            simp only [ne_eq, new, not_false_eq_true, if_true, none, governance] at kept
            exact absurd kept (by decide)
        · rintro ⟨_, raises⟩
          have order : rank held.mode ≤
              rank (if change.mode ≠ .none then change.mode else held.mode) := by
            split
            · rename_i new
              by_contra lower
              have governance : held.mode = .governance := rank_eq_one_iff.mp (by omega)
              exact raises ⟨clear, governance, new, by omega, allowed, dates⟩
            · exact Nat.le_refl _
          exact ⟨fun locked => absurd locked unlocked, fun _ => ⟨order, later⟩, rfl,
            fun other => by contradiction⟩

/-- A request that is refused asked for neither. -/
theorem refused_keeps (refused : Provider.updatedRetention held change = .error err) :
    ¬ DropsHold held change ∧ ¬ LowersMode held change := by
  constructor
  · rintro ⟨clear, unlocked, _⟩
    simp [Provider.updatedRetention, clear, unlocked] at refused
  · rintro ⟨clear, governance, _, _, allowed, _⟩
    simp [Provider.updatedRetention, clear, governance, allowed] at refused

/-- Such a request makes a sidecar that can be written. -/
theorem dated_of_weakens (accepted : Provider.updatedRetention held change = .ok kept)
    (weakens : DropsHold held change ∨ LowersMode held change) : dated kept.retainUntil := by
  rcases weakens with ⟨clear, unlocked, _⟩ | ⟨clear, governance, _, _, allowed, dates⟩
  · simp only [Provider.updatedRetention, if_neg unlocked, clear, if_true] at accepted
    cases accepted
    exact dated_zero
  · have unlocked : held.mode ≠ .compliance := by simp [governance]
    simp only [Provider.updatedRetention, if_neg unlocked, clear, allowed, Bool.false_eq_true,
      if_false] at accepted
    cases accepted
    exact dates

/-- The retention a version is stored with. -/
def Provider.retentionOf (p : Provider) (w : World) (ref : VersionedObjectRef) :
    Option RetentionState :=
  match w.tree.look (p.versionMetaPath ref.key ref.versionID) with
  | some (.file content) => content.asSidecar.toOption.map Sidecar.retention
  | _ => none

theorem retentionOf_eq (found : w.tree.look (p.versionMetaPath ref.key ref.versionID) =
      some (.file content)) (parsed : content.asSidecar = .ok sc) :
    p.retentionOf w ref = some sc.retention := by
  simp [Provider.retentionOf, found, parsed, Except.toOption]

theorem retentionOf_some (stored : p.retentionOf w ref = some held) : ∃ content sc,
    w.tree.look (p.versionMetaPath ref.key ref.versionID) = some (.file content) ∧
      content.asSidecar = .ok sc ∧ sc.retention = held := by
  unfold Provider.retentionOf at stored
  split at stored
  · rename_i content found
    cases parsed : content.asSidecar with
    | error err => simp [parsed, Except.toOption] at stored
    | ok sc =>
      rw [parsed] at stored
      exact ⟨content, sc, found, parsed, Option.some.inj stored⟩
  · contradiction

def Event.refused (e : Event) : Bool :=
  match e.answer with
  | .ok _ => false
  | .error _ => true

/-- The request is for a stored version, which holds `held`. -/
structure Asks (p : Provider) (t : Transition) (ref : VersionedObjectRef)
    (change : Provider.RetentionChange) (held : RetentionState) : Prop where
  op : t.event.op = .updateRetention ref change
  valid : validateKey ref.key = none
  inside : Below p.root (p.versionMetaPath ref.key ref.versionID)
  stored : p.retentionOf t.before ref = some held

/-- An update of the retention of a stored version did not weaken it. -/
def Transition.Keeps (p : Provider) (t : Transition) : Prop :=
  ∀ ref change held, Asks p t ref change held →
    ∃ kept, p.retentionOf t.after ref = some kept ∧
      LocalFsDev.Keeps held change t.event.refused kept

/-- The temporary file of the sidecar can be written. -/
def Provider.Writable (p : Provider) (w : World) (ref : VersionedObjectRef) : Prop :=
  w.tree.place (tmpOf (p.versionMetaPath ref.key ref.versionID)) = .ok ()

/-- An update of the retention of a stored version clears a legal hold or puts another
text in the place of GOVERNANCE. -/
def Transition.Weakens (p : Provider) (t : Transition) : Prop :=
  ∃ ref change held, Asks p t ref change held ∧ (DropsHold held change ∨ LowersMode held change) ∧
    p.Writable t.before ref

section Steps
variable {s : Setting}

theorem ends_readSidecar (quiet : ¬ s.fails) {post : Except GoError Sidecar → World → Prop}
    (found : w.tree.look (p.versionMetaPath key version) = some (.file content))
    (reads : content.asSidecar = .ok sc) (next : post (.ok sc) w) :
    Ends s (p.readSidecar key version).run post w := by
  have result : parsed w.tree (p.versionMetaPath key version) Content.asSidecar = .ok sc :=
    (parsed_file found).trans reads
  refine Acts.step (ends_readJSON quiet ?_)
  rw [result]
  exact next

/-- One request, on a stored version. -/
theorem updateRetention_keeps_iff (quiet : ¬ s.fails) (tidy : p.Tidy w.tree)
    (valid : validateKey ref.key = none)
    (inside : Below p.root (p.versionMetaPath ref.key ref.versionID))
    (stored : p.retentionOf w ref = some held) :
    Ends s (p.updateRetention ref change).run (fun answer w' =>
      ∃ kept, p.retentionOf w' ref = some kept ∧
        (Keeps held change (Event.refused ⟨.updateRetention ref change, answer⟩) kept ↔
          ¬ ((DropsHold held change ∨ LowersMode held change) ∧ p.Writable w ref))) w := by
  obtain ⟨content, sc, found, reads, rfl⟩ := retentionOf_some stored
  have same : ∀ {refused : Bool} {claim : Prop}, ¬ claim →
      (Keeps sc.retention change refused sc.retention ↔ ¬ claim) :=
    fun fine => iff_of_true keeps_same fine
  refine Acts.step (acts_check (fun _ => ?_) fun err wrong => ?_)
  · refine Acts.step (ends_readSidecar quiet found reads ?_)
    simp only [Continues]
    cases updated : Provider.updatedRetention sc.retention change with
    | error err =>
      refine ⟨sc.retention, stored, same ?_⟩
      have neither := refused_keeps updated
      exact fun weakens => weakens.1.elim neither.1 neither.2
    | ok kept =>
      have path : p.versionMetaPath ref.key ref.versionID =
        p.folder ref.key ref.versionID ++ [stemOf ref.versionID ++ ".json"] := versionMetaPath_eq _ _
      have tmp : tmpOf (p.versionMetaPath ref.key ref.versionID) =
          p.folder ref.key ref.versionID ++ [stemOf ref.versionID ++ ".json" ++ ".tmp"] := by
        rw [path, tmpOf_concat]
      have file : w.tree.isDir (p.versionMetaPath ref.key ref.versionID) = false := by
        rw [Bool.eq_false_iff, ne_eq, Tree.isDir_iff, found]
        simp
      rw [path] at file
      refine Acts.step ?_
      rw [path]
      refine ends_writeJSON quiet (fun body t marshalled place _ looks => ?_)
        fun err t cause _ looks => ?_
      · obtain ⟨rfl, dates, _⟩ := Sidecar.marshal_ok marshalled
        have written : t.look (p.versionMetaPath ref.key ref.versionID) =
            some (.file (.sidecar { sc with retention := kept })) := by
          rw [path]
          simp [looks]
        have now := retentionOf_eq (w := { w with tree := t }) written rfl
        refine ⟨kept, now, ?_⟩
        rw [Provider.Writable, tmp]
        simp only [place, and_true, not_or]
        exact keeps_updated updated dates
      · have away : p.versionMetaPath ref.key ref.versionID ≠
            p.folder ref.key ref.versionID ++ [stemOf ref.versionID ++ ".json" ++ ".tmp"] := by
          rw [path]
          intro equal
          exact append_ne (by decide : ".json".toList.getLast? = some 'n')
            (by decide : ".tmp".toList.getLast? = some 'p') (by decide) (concat_inj equal).2
        refine ⟨sc.retention, retentionOf_eq ((looks _ away).trans found) reads, same ?_⟩
        rintro ⟨weakens, writable⟩
        rw [Provider.Writable, tmp] at writable
        have dates := dated_of_weakens updated weakens
        have sound := ((tidy _ _ found).sound content rfl inside).asSidecar reads
        have marshalled : ({ sc with retention := kept } : Sidecar).marshal =
            .ok (.sidecar { sc with retention := kept }) := if_pos ⟨dates, sound.writeTime⟩
        have taken := cause _ marshalled writable
        rw [file] at taken
        contradiction
  · rw [valid] at wrong
    contradiction

end Steps

/-- Whatever else was done to a new store: its `UpdateRetention` requests have weakened
nothing exactly if none of them cleared a legal hold or put another text in the place of
GOVERNANCE. -/
theorem retention_kept_iff (fresh : p.Fresh w) (history : p.History calm w past w') :
    (∀ t ∈ past, t.Keeps p) ↔ ∀ t ∈ past, ¬ t.Weakens p := by
  refine forall₂_congr fun t member => ?_
  obtain ⟨earlier, before, step⟩ := history.mem member
  have tidy := before.tidy fresh.tidy
  have once : ∀ ref change held, Asks p t ref change held → ∃ kept,
      p.retentionOf t.after ref = some kept ∧
        (Keeps held change t.event.refused kept ↔
          ¬ ((DropsHold held change ∨ LowersMode held change) ∧ p.Writable t.before ref)) := by
    rintro ref change held ⟨op, valid, inside, stored⟩
    obtain ⟨before, ⟨eventOp, answer⟩, after⟩ := t
    cases op
    exact (updateRetention_keeps_iff (fun fails => fails) tidy valid inside stored).runs step
  constructor
  · rintro keeps ⟨ref, change, held, asks, weakens⟩
    obtain ⟨kept, stored, iff⟩ := once ref change held asks
    obtain ⟨kept', stored', keeps⟩ := keeps ref change held asks
    rw [stored] at stored'
    cases stored'
    exact iff.mp keeps weakens
  · intro none ref change held asks
    obtain ⟨kept, stored, iff⟩ := once ref change held asks
    exact ⟨kept, stored, iff.mpr fun weakens => none ⟨ref, change, held, asks, weakens⟩⟩

section Example

/-- A version is written under legal hold, and its retention is cleared. -/
def clearingRun : List Operation :=
  [.put { key := "a", body := ⟨[], none⟩, retention := { mode := .governance, legalHold := true } },
    .updateRetention ⟨"a", versionText 0 0⟩ ⟨.none, 0, true⟩]

theorem clearing_history : ∃ past w', sample.History calm sampleWorld past w' ∧ ∃ t ∈ past,
      Asks sample t ⟨"a", versionText 0 0⟩ ⟨.none, 0, true⟩
        ⟨.governance, 0, true⟩ ∧
      sample.retentionOf t.after ⟨"a", versionText 0 0⟩ =
        some ⟨.none, 0, false⟩ := by
  obtain ⟨past, w', history, _, found⟩ : ∃ past w', sample.History calm sampleWorld past w' ∧
      past.map (fun t => t.event.op) = clearingRun ∧ ∃ t ∈ past,
        t.event.op = .updateRetention ⟨"a", versionText 0 0⟩ ⟨.none, 0, true⟩ ∧
          sample.retentionOf t.before ⟨"a", versionText 0 0⟩ =
            some ⟨.governance, 0, true⟩ ∧
          sample.retentionOf t.after ⟨"a", versionText 0 0⟩ =
            some ⟨.none, 0, false⟩ :=
    exists_history calm_ticks clearingRun (by decide +kernel)
  obtain ⟨t, member, op, before, after⟩ := found
  exact ⟨past, w', history, t, member, ⟨op, by decide, by decide, before⟩, after⟩

/-- The legal hold is gone with the retention. -/
theorem clear_drops_hold : ∃ past w', sample.History calm sampleWorld past w' ∧
      ∃ t ∈ past, ¬ t.Keeps sample := by
  obtain ⟨past, w', history, t, member, asks, after⟩ := clearing_history
  refine ⟨past, w', history, t, member, fun keeps => ?_⟩
  obtain ⟨kept, stored, keeps⟩ := keeps _ _ _ asks
  rw [after] at stored
  cases stored
  exact absurd keeps.legalHold (by decide)

theorem retention_kept_clearing : ∃ past w', sample.History calm sampleWorld past w' ∧ past ≠ [] ∧
      ((∀ t ∈ past, t.Keeps sample) ↔
        ∀ t ∈ past, ¬ t.Weakens sample) := by
  obtain ⟨past, w', history, t, member, _⟩ := clearing_history
  exact ⟨past, w', history, List.ne_nil_of_mem member, retention_kept_iff world_root_fresh history⟩

end Example
end KDrive.LocalFsDev
