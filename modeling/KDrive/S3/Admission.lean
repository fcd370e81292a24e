import KDrive.Interaction.Duties
import KDrive.Interaction.Halting
import KDrive.Interaction.Schedule
import KDrive.S3.Provider

/-! The operations of the adapter behind one breaker, any number of them at a time, with
an API that answers as it likes. The breaker gets out of the half-open state by a recorded
result only, so it comes down to whether an operation that was let through to probe it
records one. -/
namespace KDrive.S3
open Go Blobstore Interaction

/-- The operations that go through the breaker. -/
inductive Operation where
  | put (req : PutRequest)
  | head (ref : ObjectRef)
  | get (req : GetRequest)
  | delete (ref : ObjectRef)
  | createMultipart (req : MultipartRequest)
  | completeMultipart (req : CompleteRequest)
  | uploadPart (upload : MultipartUpload) (partNumber : Int) (body : Reader)

/-- The error an operation ends in. -/
def failure : Except GoError α → Option GoError
  | .ok _ => none
  | .error err => some err

namespace Operation

def body (p : Provider) : Operation → Api (Option GoError)
  | .put req => do return failure (← p.put req)
  | .head ref => do return failure (← p.head ref)
  | .get req => do return failure (← p.get req)
  | .delete ref => do return failure (← p.delete ref)
  | .createMultipart req => do return failure (← p.createMultipart req)
  | .completeMultipart req => do return failure (← p.completeMultipart req)
  | .uploadPart upload partNumber body => do return failure (← p.uploadPart upload partNumber body)

def key : Operation → String
  | .put req => req.key
  | .head ref | .delete ref => ref.key
  | .get req => req.ref.key
  | .createMultipart req => req.key
  | .completeMultipart req => req.upload.key
  | .uploadPart upload _ _ => upload.key

/-- The adapter turns the operation down by itself once it was let through: retention on a
provider without Object Lock, or a part whose body cannot be read or is too long. -/
def rejects (p : Provider) : Operation → Bool
  | .put req => Provider.retains req.retention && !p.s3ObjectLock
  | .createMultipart req => Provider.retains req.retention && !p.s3ObjectLock
  | .uploadPart _ _ body => (body.limit (Provider.maxPartBytes + 1)).failure.isSome ||
      decide (Provider.maxPartBytes < (body.limit (Provider.maxPartBytes + 1)).data.length)
  | _ => false

end Operation

/-- The reply lets an operation through a breaker that is open or half-open. -/
def admitsProbe : (q : Request) → q.Reply → Bool
  | .allow, .admitted found => found ≠ .circuitClosed
  | _, _ => false

def records : Request → Bool
  | .recordSuccess | .recordFailure => true
  | _ => false

def probing (history : History api) : Bool :=
  history.any fun event => admitsProbe event.request event.reply

def recorded (history : History api) : Bool := history.any fun event => records event.request

/-- A reply after which an operation ends without having recorded anything: an error that
counts as the client's, or a temporary file that does not work. -/
def silences (p : Provider) (key : String) : (q : Request) → q.Reply → Bool
  | .putObject _, .error err | .getObject .., .error err | .headObject .., .error err
  | .deleteObject .., .error err | .createMultipartUpload _, .error err
  | .uploadPart _, .error err | .completeMultipartUpload _, .error err =>
    isClientError (p.classifyError err key)
  | .createTemp, some _ | .copyToTemp _, some _ | .seekTemp, some _ => true
  | _, _ => false

/-- An operation that is let through an open or half-open breaker is not turned down by
the adapter, and until it has recorded a result gets no reply that keeps it from that. -/
def ProbesAnswer (p : Provider) (op : Operation) (history : History api) (q : Request)
    (reply : q.Reply) : Prop :=
  (admitsProbe q reply = true → op.rejects p = false) ∧
    (probing history = true → recorded history = false → silences p op.key q reply = false)

instance (p : Provider) (op : Operation) (history : History api) (q : Request) (reply : q.Reply) :
    Decidable (ProbesAnswer p op history q reply) := inferInstanceAs (Decidable (_ ∧ _))

/-- The breaker does what it is told; the API and the file may answer anything. -/
def Serves (cb : CircuitBreaker) : (q : Request) → q.Reply → CircuitBreaker → Prop
  | .allow, reply, cb' => ∃ now, cb' = (cb.allow now).2 ∧ reply = match (cb.allow now).1 with
      | none => .admitted cb.state
      | some err => .refused err
  | .recordSuccess, _, cb' => cb' = cb.recordSuccess
  | .recordFailure, _, cb' => ∃ now, cb' = cb.recordFailure now
  | _, _, cb' => cb' = cb

/-- Any operations at any time. -/
def traffic (p : Provider) (admits : Operation → History api → (q : Request) → q.Reply → Prop) :
    Machine api CircuitBreaker Operation (Option GoError) where
  handler _ := Serves
  body := Operation.body p
  starts cb _ cb' := cb' = cb
  environment _ _ := False
  admits op history _ q reply := admits op history q reply

section Probing
variable {p : Provider} {op : Operation}

/-- An operation that probes the breaker owes it a result. -/
abbrev Owing (p : Provider) (op : Operation) (program : Api α) (history : History api) : Prop :=
  Owes (traffic p (ProbesAnswer p)) (fun q => records q = true) op program history

abbrev Sound (p : Provider) (op : Operation) (program : Api α) : Prop :=
  Dutiful (traffic p (ProbesAnswer p)) (fun q => records q = true)
    (fun q reply => admitsProbe q reply = true) op program []

abbrev Silent (program : Api α) : Prop := Plain (fun q reply => admitsProbe q reply = true) program

theorem concluded_plain (key : String) (reply : Except ApiError β)
    {result : β → Api (Except GoError α)} (plain : ∀ out, Silent (result out)) :
    Silent (p.concluded key reply result) := by
  cases reply with
  | error err =>
    simp only [Provider.concluded]
    split
    · exact fun _ => ⟨nofun, trivial⟩
    · trivial
  | ok out =>
    cases guarded : p.breaker with
    | true =>
      simp only [Provider.concluded, guarded]
      exact fun _ => ⟨nofun, plain out⟩
    | false =>
      simp only [Provider.concluded, guarded]
      exact plain out

theorem concluded_owes {reply : Except ApiError β} {result : β → Api (Except GoError α)}
    (guarded : p.breaker = true)
    (server : ∀ err, reply = .error err → isClientError (p.classifyError err key) = false) :
    Owing p op (p.concluded key reply result) history := by
  cases reply with
  | error err =>
    have counts : ¬ isClientError (p.classifyError err key) = true := by simp [server err rfl]
    simp only [Provider.concluded]
    rw [if_pos ⟨guarded, counts⟩]
    exact .inl rfl
  | ok out =>
    simp only [Provider.concluded, guarded]
    exact .inl rfl

/-- Every operation ends by itself, or asks the breaker and goes on from there. -/
theorem guarded_sound {proceed : Api (Except GoError α)} (plain : Silent proceed)
    (owes : ∀ found, p.breaker = true → admitsProbe .allow (.admitted found) = true →
      op.rejects p = false → Owing p op proceed [⟨.allow, .admitted found⟩]) :
    Sound p op (p.guarded proceed) := by
  unfold Provider.guarded
  split
  · rename_i guarded
    intro w reply admitted
    cases reply with
    | refused err => exact ⟨nofun, trivial⟩
    | admitted found =>
      exact ⟨fun opened => owes found guarded opened (admitted.1 opened), plain.dutiful _⟩
  · exact plain.dutiful _

/-- A probe that goes on to its API call. -/
theorem probing_first (opened : admitsProbe .allow (.admitted found) = true) :
    probing [⟨.allow, .admitted found⟩] = true := by
  simpa [probing] using opened

theorem probing_append (opened : probing history = true) (event : Event api) :
    probing (history ++ [event]) = true := by
  simp only [probing, List.any_append, Bool.or_eq_true] at opened ⊢
  exact .inl opened

theorem put_sound (req : PutRequest) : Sound p (.put req) (p.put req) := by
  unfold Provider.put
  split
  · trivial
  · refine guarded_sound ?_ fun found guarded opened accepted => ?_
    · split
      · trivial
      · exact fun reply => ⟨nofun, concluded_plain _ reply fun _ _ => ⟨nofun, trivial⟩⟩
    · have supported : ¬ (Provider.retains req.retention = true ∧ ¬ p.s3ObjectLock = true) := by
        simpa [Operation.rejects] using accepted
      rw [if_neg supported]
      refine .inr fun w reply admitted => concluded_owes guarded ?_
      rintro err rfl
      exact admitted.2 (probing_first opened) rfl

theorem head_sound (ref : ObjectRef) : Sound p (.head ref) (p.head ref) := by
  unfold Provider.head
  split
  · trivial
  · refine guarded_sound ?_ fun found guarded opened _ => ?_
    · exact fun reply => ⟨nofun, concluded_plain _ reply fun _ => trivial⟩
    · refine .inr fun w reply admitted => concluded_owes guarded ?_
      rintro err rfl
      exact admitted.2 (probing_first opened) rfl

theorem get_sound (req : GetRequest) : Sound p (.get req) (p.get req) := by
  unfold Provider.get
  split
  · trivial
  · refine guarded_sound ?_ fun found guarded opened _ => ?_
    · exact fun reply => ⟨nofun, concluded_plain _ reply fun _ => trivial⟩
    · refine .inr fun w reply admitted => concluded_owes guarded ?_
      rintro err rfl
      exact admitted.2 (probing_first opened) rfl

theorem delete_sound (ref : ObjectRef) : Sound p (.delete ref) (p.delete ref) := by
  unfold Provider.delete
  split
  · trivial
  · refine guarded_sound ?_ fun found guarded opened _ => ?_
    · exact fun reply => ⟨nofun, concluded_plain _ reply fun _ => trivial⟩
    · refine .inr fun w reply admitted => concluded_owes guarded ?_
      rintro err rfl
      exact admitted.2 (probing_first opened) rfl

theorem createMultipart_sound (req : MultipartRequest) :
    Sound p (.createMultipart req) (p.createMultipart req) := by
  unfold Provider.createMultipart
  split
  · trivial
  · refine guarded_sound ?_ fun found guarded opened accepted => ?_
    · split
      · trivial
      · exact fun reply => ⟨nofun, concluded_plain _ reply fun _ => trivial⟩
    · have supported : ¬ (Provider.retains req.retention = true ∧ ¬ p.s3ObjectLock = true) := by
        simpa [Operation.rejects] using accepted
      rw [if_neg supported]
      refine .inr fun w reply admitted => concluded_owes guarded ?_
      rintro err rfl
      exact admitted.2 (probing_first opened) rfl

theorem completeMultipart_sound (req : CompleteRequest) :
    Sound p (.completeMultipart req) (p.completeMultipart req) := by
  unfold Provider.completeMultipart
  split
  · trivial
  · refine guarded_sound ?_ fun found guarded opened _ => ?_
    · intro reply
      exact ⟨nofun, concluded_plain _ reply fun _ _ => ⟨nofun, fun _ => ⟨nofun, trivial⟩⟩⟩
    · refine .inr fun w reply admitted => concluded_owes guarded ?_
      rintro err rfl
      exact admitted.2 (probing_first opened) rfl

theorem uploadPart_sound (upload : MultipartUpload) (partNumber : Int) (body : Reader) :
    Sound p (.uploadPart upload partNumber body) (p.uploadPart upload partNumber body) := by
  unfold Provider.uploadPart
  split
  · trivial
  · split
    · trivial
    · refine guarded_sound ?_ fun found guarded opened accepted => ?_
      · generalize body.limit (Provider.maxPartBytes + 1) = limited
        intro created
        refine ⟨nofun, ?_⟩
        cases created with
        | some err => trivial
        | none =>
          intro copied
          refine ⟨nofun, ?_⟩
          cases copied with
          | some err => trivial
          | none =>
            cases limited.failure with
            | some err => trivial
            | none =>
              simp only
              split
              · trivial
              · intro sought
                refine ⟨nofun, ?_⟩
                cases sought with
                | some err => trivial
                | none =>
                  exact fun reply => ⟨nofun, concluded_plain _ reply fun _ => trivial⟩
      · have readable : (body.limit (Provider.maxPartBytes + 1)).failure = none ∧
            ¬ Provider.maxPartBytes < (body.limit (Provider.maxPartBytes + 1)).data.length := by
          simp only [Operation.rejects, Bool.or_eq_false_iff, decide_eq_false_iff_not,
            Option.isSome_eq_false_iff, Option.isNone_iff_eq_none] at accepted
          exact accepted
        have first := probing_first opened
        refine .inr fun w created admitted => ?_
        cases created with
        | some err => exact nomatch admitted.2 first rfl
        | none =>
          have second := probing_append first ⟨.createTemp, none⟩
          refine .inr fun w copied admitted => ?_
          cases copied with
          | some err => exact nomatch admitted.2 second rfl
          | none =>
            have third := probing_append second
              ⟨.copyToTemp (body.limit (Provider.maxPartBytes + 1)).data, none⟩
            simp only [readable.1]
            rw [if_neg readable.2]
            refine .inr fun w sought admitted => ?_
            cases sought with
            | some err => exact nomatch admitted.2 third rfl
            | none =>
              refine .inr fun w reply admitted => concluded_owes guarded ?_
              rintro err rfl
              exact admitted.2 (probing_append third ⟨.seekTemp, none⟩) rfl

theorem body_sound (op : Operation) : Sound p op (op.body p) := by
  cases op with
  | put req => exact (put_sound req).bind fun _ _ => trivial
  | head ref => exact (head_sound ref).bind fun _ _ => trivial
  | get req => exact (get_sound req).bind fun _ _ => trivial
  | delete ref => exact (delete_sound ref).bind fun _ _ => trivial
  | createMultipart req => exact (createMultipart_sound req).bind fun _ _ => trivial
  | completeMultipart req => exact (completeMultipart_sound req).bind fun _ _ => trivial
  | uploadPart upload partNumber body =>
    exact (uploadPart_sound upload partNumber body).bind fun _ _ => trivial

/-- A half-open breaker is an obligation: a probe opens it and a result settles it. -/
theorem half_open_obligation (p : Provider) :
    Obligation (traffic p (ProbesAnswer p)) (fun q => records q = true)
      (fun q reply => admitsProbe q reply = true) (fun cb => cb.state = .circuitHalfOpen) where
  bodies := body_sound
  settled {_ w q reply w'} recording served := by
    cases q with
    | recordSuccess =>
      obtain rfl : w' = w.recordSuccess := served
      rw [CircuitBreaker.recordSuccess_state]
      split
      · nofun
      · assumption
    | recordFailure =>
      obtain ⟨now, rfl⟩ := served
      rw [CircuitBreaker.recordFailure_state]
      split <;> nofun
    | _ => contradiction
  opened {_ w q reply w'} served half := by
    cases q with
    | allow =>
      obtain ⟨now, rfl, rfl⟩ := served
      unfold CircuitBreaker.allow at half ⊢
      cases state : w.state with
      | circuitClosed => simp only [state] at half; contradiction
      | circuitHalfOpen => exact .inl rfl
      | circuitOpen =>
        simp only [state] at half ⊢
        split at half
        · simp only [state] at half; contradiction
        · rename_i passed
          split at half
          · simp only [state] at half; contradiction
          · rename_i free
            right
            rw [if_neg passed, if_neg free]
            rfl
    | recordSuccess =>
      obtain rfl : w' = w.recordSuccess := served
      rw [CircuitBreaker.recordSuccess_state] at half
      split at half
      · contradiction
      · exact .inl half
    | recordFailure =>
      obtain ⟨now, rfl⟩ := served
      rw [CircuitBreaker.recordFailure_state] at half
      split at half <;> contradiction
    | _ =>
      obtain rfl : w' = w := served
      exact .inl half
  starts started half := by
    cases started
    exact half
  environment impossible := impossible.elim

end Probing

section Wiring
variable {p : Provider} {admits : Operation → History api → (q : Request) → q.Reply → Prop}

theorem Serves.wired (wired : cb.Wired) (served : Serves cb q reply cb') : cb'.Wired := by
  cases q with
  | allow =>
    obtain ⟨now, rfl, _⟩ := served
    exact wired.allow now
  | recordSuccess =>
    obtain rfl : cb' = cb.recordSuccess := served
    exact wired.recordSuccess
  | recordFailure =>
    obtain ⟨now, rfl⟩ := served
    exact wired.recordFailure now
  | _ =>
    obtain rfl : cb' = cb := served
    exact wired

theorem traffic_wired (wired : cb.Wired) (run : (traffic p admits).Reaches ⟨cb, []⟩ s) :
    s.world.Wired := by
  refine reaches_invariant (fun s => s.world.Wired) ?_ run wired
  intro s t wired step
  cases step with
  | start started =>
    cases started
    exact wired
  | call _ served => exact Serves.wired wired served
  | environment impossible => exact impossible.elim

end Wiring

/-- A clock reading, and how the API call goes if the request is one. -/
structure Tick where
  now : Time
  outcome : Except ApiError Unit := .ok ()

/-- Runs of `Head` that can be evaluated. -/
def heads : Driver api CircuitBreaker Operation Tick Empty where
  serve _ tick cb
    | .allow => some (match cb.allow tick.now with
        | (none, cb') => (.admitted cb.state, cb')
        | (some err, cb') => (.refused err, cb'))
    | .recordSuccess => some ((), cb.recordSuccess)
    | .recordFailure => some ((), cb.recordFailure tick.now)
    | .headObject .. => some (tick.outcome.map fun _ => {}, cb)
    | _ => none
  starts cb _ := some cb
  change change _ := nomatch change

theorem heads_within (p : Provider)
    (admits : Operation → History api → (q : Request) → q.Reply → Prop) :
    (heads.machine (Operation.body p) (fun _ => True) fun op history _ q reply =>
      admits op history q reply).Within (traffic p admits) where
  handler {op cb q reply cb'} := by
    rintro ⟨tick, served⟩
    cases q with
    | allow =>
      refine ⟨tick.now, ?_⟩
      simp only [heads, Option.some.injEq] at served
      generalize cb.allow tick.now = passage at served ⊢
      obtain ⟨refusal, _⟩ := passage
      cases refusal <;> (cases served; exact ⟨rfl, rfl⟩)
    | recordSuccess => cases served; rfl
    | recordFailure => cases served; exact ⟨tick.now, rfl⟩
    | headObject => cases served; rfl
    | _ => contradiction
  body := rfl
  starts started := (Option.some.inj started.2).symm
  environment {w w'} := by
    rintro ⟨change, _⟩
    contradiction
  admits admitted := admitted

/-- With no operation in progress, the breaker lets a request through once the reset
timeout has passed: in every run in which no operation that was let through to probe it
ends without recording a result. -/
theorem breaker_never_wedges (p : Provider) (threshold : Int) (resetTimeout : Duration)
    (run : (traffic p (ProbesAnswer p)).Reaches ⟨newCircuitBreaker threshold resetTimeout, []⟩ s)
    (idle : ∀ t ∈ s.threads, ∃ err, t.program = .ret err)
    (passed : s.world.resetTimeout ≤ now - s.world.openedAt) : (s.world.allow now).1 = none := by
  have wired := traffic_wired (CircuitBreaker.wired_new threshold resetTimeout) run
  have fresh : (newCircuitBreaker threshold resetTimeout).state ≠ .circuitHalfOpen := by
    simp [newCircuitBreaker]
  have half : s.world.state ≠ .circuitHalfOpen := (half_open_obligation p).idle fresh run idle
  rcases CircuitBreaker.allow_cases wired now with ⟨_, same⟩ | ⟨_, _, same⟩ | ⟨notClosed, _, early⟩
  · rw [same]
  · rw [same]
  · cases state : s.world.state with
    | circuitClosed => exact absurd state notClosed
    | circuitHalfOpen => exact absurd state half
    | circuitOpen => exact absurd (early state) (Int.not_lt.mpr passed)

/-- No operation is in progress. -/
def returned (s : System api CircuitBreaker Operation (Option GoError)) : Bool :=
  s.threads.all fun t => match t.program with
    | .ret _ => true
    | .ask _ _ => false

theorem returned_iff :
    returned s = true ↔ ∀ t ∈ s.threads, ∃ err, t.program = .ret err := by
  simp only [returned, List.all_eq_true]
  refine forall₂_congr fun t _ => ?_
  cases t.program <;> simp

/-- A provider behind a breaker. -/
def aws : Provider := { providerName := "s3", bucket := "b", breaker := true }

def outage : Except ApiError Unit := .error { status := some 503, text := "slow down" }

def missing : Except ApiError Unit := .error { status := some 404, text := "not found" }

/-- Calls of `Head` one after the other, each at its time and with its outcome; one that
the breaker lets through makes `requests` requests. -/
def headsInTurn (calls : List (Time × Except ApiError Unit × Nat)) :
    List (Move Operation Tick Empty) :=
  calls.zipIdx.flatMap fun ((now, outcome, requests), i) =>
    .start (.head { key := "k" }) :: List.replicate requests (.call i { now, outcome })

def probesAnswer (p : Provider) (op : Operation) (history : History api) (_ : CircuitBreaker)
    (q : Request) (reply : q.Reply) : Bool :=
  decide (ProbesAnswer p op history q reply)

theorem probesAnswer_sound {q : Request} {reply : q.Reply}
    (checked : probesAnswer p op history cb q reply = true) : ProbesAnswer p op history q reply :=
  of_decide_eq_true checked

/-- An outage opens the breaker, a probe that fails keeps it open, and the next one is let
through in its turn. -/
theorem breaker_never_wedges_outage : ∃ s,
    (traffic aws (ProbesAnswer aws)).Reaches ⟨newCircuitBreaker 1 5, []⟩ s ∧
      s.world.state = .circuitOpen ∧ s.world.openedAt = 6 ∧ (s.world.allow 11).1 = none := by
  have facts : (heads.follow (Operation.body aws) (probesAnswer aws)
      (headsInTurn [(0, outage, 3), (6, outage, 3)]) ⟨newCircuitBreaker 1 5, []⟩).any (fun s =>
        s.world.state = .circuitOpen ∧ s.world.openedAt = 6 ∧ s.world.resetTimeout = 5 ∧
          returned s) = true := by
    decide +kernel
  obtain ⟨s, run, holds⟩ := heads.follow_exhibits
    (fun _ _ _ _ _ => probesAnswer_sound) (fun _ _ => trivial) facts
  obtain ⟨opened, at6, timeout, ended⟩ := of_decide_eq_true holds
  have run := (heads_within aws _).reaches run
  refine ⟨s, run, opened, at6, breaker_never_wedges aws 1 5 run (returned_iff.mp ended) ?_⟩
  rw [timeout, at6]
  decide

/-- The probe finds no object: the breaker stays half-open for good with nobody left to
decide it. -/
theorem breaker_wedges_not_found : ∃ s,
    (traffic aws fun _ _ _ _ => True).Reaches ⟨newCircuitBreaker 1 5, []⟩ s ∧
      (∀ t ∈ s.threads, ∃ err, t.program = .ret err) ∧ s.world.openedAt = 0 ∧
      ∀ now, (s.world.allow now).1 = some errCircuitOpen := by
  have facts : (heads.follow (Operation.body aws) (fun _ _ _ _ _ => true)
      (headsInTurn [(0, outage, 3), (6, missing, 2)]) ⟨newCircuitBreaker 1 5, []⟩).any (fun s =>
        s.world.openedAt = 0 ∧ s.world.state = .circuitHalfOpen ∧ s.world.probeInFlight = true ∧
          returned s) = true := by
    decide +kernel
  obtain ⟨s, run, holds⟩ := heads.follow_exhibits
    (fun _ _ _ _ _ _ => trivial) (fun _ _ => trivial) facts
  obtain ⟨at0, half, up, ended⟩ := of_decide_eq_true holds
  refine ⟨s, (heads_within aws _).reaches run, returned_iff.mp ended, at0, fun now => ?_⟩
  simp only [CircuitBreaker.allow, half, up, if_true]

end KDrive.S3
