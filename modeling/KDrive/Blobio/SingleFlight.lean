import KDrive.Blobio.Rules
import KDrive.Interaction.Logged

/-! The single-flight tables over any cache and any store: what the record of a landed
flight says is what its leader obtained, and what a leader obtained stays so while its
flight is in the table. -/
namespace KDrive.Blobio
open Go Blobstore Hotcache Interaction

/-- No component panics. -/
def NoPanic {S : Type} [Store S] (fault : Fault S) : Prop :=
  ∀ message applied, fault.trouble ≠ .panics message applied

def Flight.result (flight : Flight) : Except GoError (Bytes × ObjectMeta) :=
  match flight.err with
  | some err => .error err
  | none => .ok (flight.body, flight.info)

abbrev Log (C S : Type) := Logged pipeline (World C S) Operation

abbrev Deeds := List (Deed pipeline Operation)

/-- The call that leads restore flight `n` got this answer from the store, and this is what
`restoreFromL2` makes of it. -/
def Restores (cfg : Config) (deeds : Deeds) (n : Nat) (b : String)
    (result : Except GoError (Bytes × ObjectMeta)) : Prop :=
  ∃ leader answer, List.Sublist [⟨leader, .join .restore b, .leads n⟩,
      ⟨leader, .call (.storeGet leader.op.context { key := b }), .returned answer⟩] deeds ∧
    restoreBody cfg.maxRestoreBytes b answer = result

/-- The call that leads promote flight `n` ran `promoteLocked` to this result. -/
def Promotes (deeds : Deeds) (n : Nat) (b : String) (err : Option GoError) : Prop :=
  ∃ leader work, Replays (promoteLocked leader.op.context b).run work (.ok err) ∧
    List.Sublist (⟨leader, .join .promote b, .leads n⟩ :: work.map (Deed.mk leader)) deeds

section
variable {C S : Type}

def Durable (w : World C S) (b : String) : Prop :=
  ∃ row, w.status b = some row ∧ row.commitState = .durable

/-- The blob was durable at some time from `start` on and, in a calm run, has been since,
as long as flight `n` was in the table. -/
def Achieved (calm : Prop) (worlds : List (World C S)) (n : Nat) (b : String) (start : Nat) : Prop :=
  ∃ (t : Nat) (u : World C S), start ≤ t ∧ worlds[t]? = some u ∧ Durable u b ∧
    (calm → ∀ (t' : Nat) (u' : World C S), t ≤ t' → worlds[t']? = some u' →
      (u'.flights .promote).inflight b = some n → Durable u' b)

/-- The blob was durable at some time from `since` on. -/
def WasDurable (worlds : List (World C S)) (since : Nat) (b : String) : Prop :=
  ∃ (t : Nat) (u : World C S), since ≤ t ∧ worlds[t]? = some u ∧ Durable u b

/-- The blob was durable at some time; in a calm run, from `since` on. -/
def Secured (calm : Prop) (worlds : List (World C S)) (since : Nat) (b : String) : Prop :=
  WasDurable worlds 0 b ∧ (calm → WasDurable worlds since b)

/-- A Write's status row is to replace a durable one while a promote flight of the blob
is still in the table. -/
def Recaches (w : World C S) (q : Request) : Prop :=
  ∃ ctx row, q = .call (.statusPut ctx row) ∧ row.commitState = .cached ∧
    Durable w row.blobID ∧ (w.flights .promote).inflight row.blobID ≠ none

variable (calm : Prop) (cfg : Config)

/-- The record of a flight is what its leader obtained. -/
def Landed (w : Log C S) (n : Nat) (flight : Flight) : Table → Prop
  | .restore => Restores cfg w.deeds n flight.blobID flight.result
  | .promote => Promotes w.deeds n flight.blobID flight.err ∧
      (flight.err = none → Achieved calm w.worlds n flight.blobID 0)

structure Honest (w : Log C S) : Prop where
  keyed : ∀ table b n, (w.now.flights table).inflight b = some n →
    ∃ flight, w.now.flight table n = some flight ∧ flight.blobID = b
  landed : ∀ table n flight, w.now.flight table n = some flight → flight.done = true →
    Landed calm cfg w n flight table

/-- What no step undoes. -/
structure Advances (w w' : Log C S) : Prop where
  later : w.Extends w'
  flights : ∀ table n flight, w.now.flight table n = some flight →
    ∃ flight', w'.now.flight table n = some flight' ∧ flight'.blobID = flight.blobID ∧
      (Landed calm cfg w n flight table → Landed calm cfg w' n flight' table)
  achieved : ∀ n b start flight, w.now.flight .promote n = some flight →
    Achieved calm w.worlds n b start → Achieved calm w'.worlds n b start
  rows : ∀ b, w.now.status b ≠ none → w'.now.status b ≠ none
  cancelled : ∀ ctx err, w.now.ctxErr ctx = some err → w'.now.ctxErr ctx = some err

def singleFlight (C S : Type) : Discipline (Log C S) :=
  ⟨Honest calm cfg, Advances calm cfg, Advances calm cfg⟩

/-- What one step may do to the world it finds. -/
structure Changes (w : Log C S) (now : World C S) : Prop where
  flights : ∀ table n flight, w.now.flight table n = some flight →
    ∃ flight', now.flight table n = some flight' ∧ flight'.blobID = flight.blobID ∧
      (flight' = flight ∨ Landed calm cfg w n flight' table)
  fresh : ∀ table n flight, now.flight table n = some flight →
    (∃ flight', w.now.flight table n = some flight') ∨ flight.done = false
  keyed : ∀ table b n, (now.flights table).inflight b = some n →
    (w.now.flights table).inflight b = some n ∨ w.now.flight table n = none ∧
      ∃ flight, now.flight table n = some flight ∧ flight.blobID = b
  durable : calm → ∀ b n, (w.now.flights .promote).inflight b = some n → Durable w.now b →
    Durable now b
  rows : ∀ b, w.now.status b ≠ none → now.status b ≠ none
  cancelled : ∀ ctx err, w.now.ctxErr ctx = some err → now.ctxErr ctx = some err

variable {calm cfg} {w w' w'' : Log C S} {now : World C S}

theorem Restores.mono {deeds deeds' : Deeds} (restores : Restores cfg deeds n b result)
    (later : deeds <+: deeds') : Restores cfg deeds' n b result := by
  obtain ⟨leader, answer, logged, same⟩ := restores
  exact ⟨leader, answer, logged.trans later.sublist, same⟩

theorem Promotes.mono {deeds deeds' : Deeds} (promotes : Promotes deeds n b err)
    (later : deeds <+: deeds') : Promotes deeds' n b err := by
  obtain ⟨leader, work, replays, logged⟩ := promotes
  exact ⟨leader, work, replays, logged.trans later.sublist⟩

theorem WasDurable.later {w w' : Log C S} (durable : WasDurable w.worlds since b)
    (later : w.Extends w') : WasDurable w'.worlds since b := by
  obtain ⟨t, u, late, found, state⟩ := durable
  exact ⟨t, u, late, later.world found, state⟩

theorem Secured.later {w w' : Log C S} (secured : Secured calm w.worlds since b)
    (later : w.Extends w') : Secured calm w'.worlds since b :=
  ⟨secured.1.later later, fun settled => (secured.2 settled).later later⟩

theorem Achieved.mono (achieved : Achieved calm worlds n b start) (earlier : start' ≤ start) :
    Achieved calm (worlds : List (World C S)) n b start' := by
  obtain ⟨t, u, since, rest⟩ := achieved
  exact ⟨t, u, earlier.trans since, rest⟩

/-- The blob is durable now. -/
theorem achieved_now (durable : Durable w.now b) : Achieved calm w.worlds n b w.past.length := by
  refine ⟨w.past.length, w.now, Nat.le_refl _, w.worlds_last, durable, fun _ t u late found _ => ?_⟩
  have bound := (List.getElem?_eq_some_iff.mp found).1
  rw [w.length_worlds] at bound
  obtain rfl : t = w.past.length := by omega
  rw [w.worlds_last] at found
  cases found
  exact durable

theorem Achieved.advance (changes : Changes calm cfg w now)
    (flown : w.now.flight .promote n = some flight) (deed : Option (Deed pipeline Operation))
    (achieved : Achieved calm w.worlds n b start) :
    Achieved calm (w.advance deed now).worlds n b start := by
  obtain ⟨t, u, since, found, durable, stays⟩ := achieved
  have extended := Logged.Extends.advance w deed now
  refine ⟨t, u, since, extended.world found, durable, fun settled t' u' late found' inside => ?_⟩
  rw [Logged.worlds_advance] at found'
  have bound := (List.getElem?_eq_some_iff.mp found).1
  by_cases old : t' < w.worlds.length
  · exact stays settled t' u' late (by rwa [List.getElem?_append_left old] at found') inside
  · -- The present world: the flight was in the table before the step already.
    have last : t' = w.worlds.length := by
      have bound' := (List.getElem?_eq_some_iff.mp found').1
      rw [List.length_append, List.length_singleton] at bound'
      omega
    subst last
    rw [List.getElem?_concat_length] at found'
    cases found'
    rcases changes.keyed .promote b n inside with before | ⟨missing, -⟩
    · rw [w.length_worlds] at bound
      exact changes.durable settled b n before (stays settled _ _ (by omega) w.worlds_last before)
    · rw [flown] at missing
      contradiction

theorem Landed.advance {table : Table} (changes : Changes calm cfg w now)
    (flown : w.now.flight table n = some before) (deed : Option (Deed pipeline Operation))
    (landed : Landed calm cfg w n flight table) :
    Landed calm cfg (w.advance deed now) n flight table := by
  have later := (Logged.Extends.advance w deed now).deeds
  cases table with
  | restore => exact Restores.mono landed later
  | promote =>
    exact ⟨landed.1.mono later, fun none => (landed.2 none).advance changes flown deed⟩

theorem Changes.advances (changes : Changes calm cfg w now) (inv : Honest calm cfg w)
    (deed : Option (Deed pipeline Operation)) :
    Honest calm cfg (w.advance deed now) ∧ Advances calm cfg w (w.advance deed now) := by
  constructor
  · constructor
    · intro table b n inside
      rcases changes.keyed table b n inside with before | ⟨-, new⟩
      · obtain ⟨flight, found, rfl⟩ := inv.keyed table b n before
        obtain ⟨flight', found', named, -⟩ := changes.flights table n flight found
        exact ⟨flight', found', named⟩
      · exact new
    · intro table n flight found done
      rcases changes.fresh table n flight found with ⟨before, present⟩ | opened
      · obtain ⟨flight', found', -, same | landed⟩ := changes.flights table n before present
        · cases found.symm.trans found'
          subst same
          exact (inv.landed table n flight present done).advance changes present deed
        · cases found.symm.trans found'
          exact landed.advance changes present deed
      · rw [opened] at done
        contradiction
  · refine ⟨Logged.Extends.advance w deed now, fun table n flight found => ?_,
      fun n b start flight found achieved => achieved.advance changes found deed,
      changes.rows, changes.cancelled⟩
    obtain ⟨flight', found', named, same | landed⟩ := changes.flights table n flight found
    · subst same
      exact ⟨flight', found', rfl, fun landed => landed.advance changes found deed⟩
    · exact ⟨flight', found', named, fun _ => landed.advance changes found deed⟩

theorem singleFlight_coherent : (singleFlight calm cfg C S).Coherent where
  refl w := ⟨.refl w, fun _ _ flight found => ⟨flight, found, rfl, id⟩,
    fun _ _ _ _ _ achieved => achieved, fun _ present => present, fun _ _ done => done⟩
  trans first second := {
    later := first.later.trans second.later
    flights := fun table n flight found => by
      obtain ⟨middle, found', named, landed⟩ := first.flights table n flight found
      obtain ⟨last, found'', named', landed'⟩ := second.flights table n middle found'
      exact ⟨last, found'', named'.trans named, fun before => landed' (landed before)⟩
    achieved := fun n b start flight found achieved => by
      obtain ⟨middle, found', -⟩ := first.flights .promote n flight found
      exact second.achieved n b start middle found'
        (first.achieved n b start flight found achieved)
    rows := fun b present => second.rows b (first.rows b present)
    cancelled := fun ctx err done => second.cancelled ctx err (first.cancelled ctx err done) }
  covers _ advances := advances

theorem honest_idle {w : World C S} (idle : ∀ table, w.flights table = {}) :
    Honest calm cfg ⟨w, []⟩ := by
  constructor
  · intro table b n inside
    rw [idle] at inside
    contradiction
  · intro table n flight found
    rw [World.flight, idle] at found
    contradiction

/-- From the moment the blob is durable the leader may report success. -/
theorem durable_achieved (flown : ∃ flight, w'.now.flight .promote n = some flight)
    (before : Advances calm cfg w w') (durable : Durable w'.now b)
    (after : Advances calm cfg w' w'') : Achieved calm w''.worlds n b w.past.length := by
  obtain ⟨flight, flown⟩ := flown
  exact (after.achieved n b _ flight flown (achieved_now durable)).mono before.later.length

theorem Advances.flown {table : Table} (advances : Advances calm cfg w w')
    (flown : ∃ flight, w.now.flight table n = some flight) :
    ∃ flight, w'.now.flight table n = some flight := by
  obtain ⟨flight, flown⟩ := flown
  obtain ⟨flight', found, -⟩ := advances.flights table n flight flown
  exact ⟨flight', found⟩

end

section Requests
variable {C S : Type} {calm : Prop} {cfg : Config}
  {w : Log C S} {now : World C S}

/-- A step that leaves the tables alone. -/
theorem Changes.same (flights : now.flights = w.now.flights)
    (cancelled : ∀ ctx err, w.now.ctxErr ctx = some err → now.ctxErr ctx = some err)
    (durable : calm → ∀ b n, (w.now.flights .promote).inflight b = some n → Durable w.now b →
      Durable now b)
    (rows : ∀ b, w.now.status b ≠ none → now.status b ≠ none) : Changes calm cfg w now := by
  have flight (table : Table) (n : Nat) : now.flight table n = w.now.flight table n := by
    rw [World.flight, World.flight, flights]
  constructor
  · intro table n before found
    exact ⟨before, by rw [flight, found], rfl, .inl rfl⟩
  · intro table n before found
    exact .inl ⟨before, by rw [← flight, found]⟩
  · intro table b n inside
    exact .inl (by rw [← flights, inside])
  · exact durable
  · exact rows
  · exact cancelled

/-- A step on one call record. -/
theorem Changes.modifyCall {table : Table} {i : Nat} {f : Flight → Flight}
    (named : ∀ flight, (f flight).blobID = flight.blobID)
    (landed : ∀ flight, w.now.flight table i = some flight → Landed calm cfg w i (f flight) table) :
    Changes calm cfg w (w.now.modifyCall table i f) := by
  constructor
  · intro other n flight found
    rw [flight_modifyCall]
    split
    · rename_i here
      obtain ⟨rfl, rfl⟩ := here
      exact ⟨f flight, by rw [found, Option.map_some], named flight, .inr (landed flight found)⟩
    · exact ⟨flight, found, rfl, .inl rfl⟩
  · intro other n flight found
    rw [flight_modifyCall] at found
    split at found
    · obtain ⟨before, present, -⟩ := Option.map_eq_some_iff.mp found
      exact .inl ⟨before, present⟩
    · exact .inl ⟨flight, found⟩
  · intro other b n inside
    rw [inflight_modifyCall] at inside
    exact .inl inside
  · exact fun _ _ _ _ durable => durable
  · exact fun _ present => present
  · exact fun _ _ done => done

theorem Changes.lead (table : Table) (b : String) : Changes calm cfg w (w.now.lead table b) := by
  constructor
  · intro other n flight found
    rw [flight_lead]
    split
    · rename_i here
      obtain ⟨rfl, rfl⟩ := here
      simp [World.flight] at found
    · exact ⟨flight, found, rfl, .inl rfl⟩
  · intro other n flight found
    rw [flight_lead] at found
    split at found
    · cases found
      exact .inr rfl
    · exact .inl ⟨flight, found⟩
  · intro other b' n inside
    rw [inflight_lead] at inside
    split at inside
    · rename_i here
      obtain ⟨rfl, rfl⟩ := here
      cases inside
      exact .inr ⟨by simp [World.flight], ⟨_, by rw [flight_lead, if_pos ⟨rfl, rfl⟩], rfl⟩⟩
    · exact .inl inside
  · exact fun _ _ _ _ durable => durable
  · exact fun _ present => present
  · exact fun _ _ done => done

theorem Changes.delete (table : Table) (b : String) : Changes calm cfg w (w.now.delete table b) := by
  constructor
  · intro other n flight found
    exact ⟨flight, by rw [flight_delete, found], rfl, .inl rfl⟩
  · intro other n flight found
    rw [flight_delete] at found
    exact .inl ⟨flight, found⟩
  · intro other b' n inside
    rw [inflight_delete] at inside
    split at inside
    · contradiction
    · exact .inl inside
  · exact fun _ _ _ _ durable => durable
  · exact fun _ present => present
  · exact fun _ _ done => done

/-- Only a leader's own result is published, and only a published record is closed. -/
def Permits (calm : Prop) (cfg : Config) (w : Log C S) : Request → Prop
  | .publish table n err body info => ∀ flight, w.now.flight table n = some flight →
    Landed calm cfg w n (flight.publish err body info) table
  | .closeDone table n => ∀ flight, w.now.flight table n = some flight →
    Landed calm cfg w n flight table
  | _ => True

variable [Cache C] [Store S]

theorem access_changes {q : Request} {reply : q.Reply} (own : ∀ c, q ≠ .call c)
    (permits : Permits calm cfg w q) (served : serve fault w.now q = some (reply, now)) :
    Changes calm cfg w now := by
  have nothing : Changes calm cfg w w.now :=
    .same rfl (fun _ _ done => done) (fun _ _ _ _ durable => durable) fun _ present => present
  cases q with
  | call c => exact absurd rfl (own c)
  | join table b =>
    simp only [serve] at served
    split at served
    · cases served
      exact nothing
    · cases served
      exact .lead table b
  | await table ctx n =>
    simp only [serve] at served
    split at served
    · split at served
      · cases served
        exact nothing
      · contradiction
    · cases served
      exact nothing
    · contradiction
  | publish table n err body info =>
    cases served
    exact .modifyCall (fun _ => rfl) permits
  | closeDone table n =>
    cases served
    refine .modifyCall (fun _ => rfl) fun flight found => ?_
    have landed := permits flight found
    cases table <;> exact landed
  | delete table b =>
    cases served
    exact .delete table b
  | go fill =>
    cases served
    exact .same rfl (fun _ _ done => done) (fun _ _ _ _ durable => durable) fun _ present => present
  | lifecycleErr =>
    cases served
    exact nothing
  | now =>
    cases served
    exact nothing

omit [Cache C] [Store S] in
theorem starts_same {w w' : World C S} (started : w.starts op = some w') :
    w'.flights = w.flights ∧ w'.ctxErr = w.ctxErr ∧ w'.status = w.status := by
  unfold World.starts at started
  split at started
  · split at started
    · cases started
      exact ⟨rfl, rfl, rfl⟩
    · contradiction
  · cases started
    exact ⟨rfl, rfl, rfl⟩

omit [Cache C] [Store S] in
theorem change_same {w w' : World C S} (changed : w.change c = some w') :
    w'.flights = w.flights ∧ w'.status = w.status ∧
      ∀ ctx err, w.ctxErr ctx = some err → w'.ctxErr ctx = some err := by
  cases c with
  | tick later =>
    simp only [World.change] at changed
    split at changed
    · cases changed
      exact ⟨rfl, rfl, fun _ _ done => done⟩
    · contradiction
  | cancel ctx err =>
    simp only [World.change] at changed
    split at changed
    · rename_i live
      cases changed
      refine ⟨rfl, rfl, fun other err' done => ?_⟩
      have different : other ≠ ctx := by
        rintro rfl
        rw [live] at done
        contradiction
      simp only [Function.update_of_ne different, done]
    · contradiction

theorem perform_tables (weather : Store.Weather S) (w : World C S) (c : Call) :
    (perform weather w c).2.flights = w.flights ∧ (perform weather w c).2.ctxErr = w.ctxErr := by
  cases c <;> exact ⟨rfl, rfl⟩

theorem perform_rows (weather : Store.Weather S) (w : World C S) (c : Call)
    (present : w.status b ≠ none) : (perform weather w c).2.status b ≠ none := by
  cases c with
  | statusPut ctx row =>
    simp only [perform, Function.update_apply]
    split
    · simp
    · exact present
  | markDurable ctx b' versionID size checksum durableAt =>
    simp only [perform, markDurable_apply]
    split
    · rename_i same
      subst same
      simpa using present
    · exact present
  | _ => exact present

theorem perform_durable (weather : Store.Weather S) (w : World C S) (c : Call)
    (keeps : ¬ Recaches w (.call c)) (inside : (w.flights .promote).inflight b = some n)
    (durable : Durable w b) : Durable (perform weather w c).2 b := by
  obtain ⟨row, found, state⟩ := durable
  cases c with
  | statusPut ctx new =>
    simp only [perform, Durable, Function.update_apply]
    split
    · rename_i same
      subst same
      refine ⟨new, rfl, ?_⟩
      by_contra cached
      refine keeps ⟨ctx, new, rfl, ?_, ⟨row, found, state⟩, by simp [inside]⟩
      cases new' : new.commitState with
      | cached => rfl
      | durable => exact absurd new' cached
    · exact ⟨row, found, state⟩
  | markDurable ctx b' versionID size checksum durableAt =>
    simp only [perform, Durable, markDurable_apply]
    split
    · rename_i same
      subst same
      rw [found]
      exact ⟨_, rfl, rfl⟩
    · exact ⟨row, found, state⟩
  | _ => exact ⟨row, found, state⟩

theorem call_changes {c : Call} {reply : Outcome c.Result} (quiet : NoPanic fault)
    (keeps : calm → ¬ Recaches w.now (.call c))
    (served : serve fault w.now (.call c) = some (reply, now)) :
    Changes calm cfg w now ∧ ∃ result, reply = .returned result := by
  have nothing : Changes calm cfg w w.now :=
    .same rfl (fun _ _ done => done) (fun _ _ _ _ durable => durable) fun _ present => present
  have performed : Changes calm cfg w (perform fault.weather w.now c).2 :=
    .same (perform_tables _ _ _).1 (fun _ _ done => by rw [(perform_tables _ _ _).2, done])
      (fun settled _ _ inside durable => perform_durable _ _ _ (keeps settled) inside durable)
      fun _ present => perform_rows _ _ _ present
  simp only [serve] at served
  split at served
  · cases served
    exact ⟨performed, _, rfl⟩
  · obtain ⟨result, -, same⟩ := Option.map_eq_some_iff.mp served
    cases same
    refine ⟨?_, result, rfl⟩
    split
    · exact performed
    · exact nothing
  · rename_i message applied panics
    exact absurd panics (quiet message applied)

end Requests

end KDrive.Blobio
