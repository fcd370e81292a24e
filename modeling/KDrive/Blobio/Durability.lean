import KDrive.Blobio.Custody

/-! The pipeline's operations under the one-body discipline: each keeps it from any
state and under any interference, and what each may conclude when it returns. -/
namespace KDrive.Blobio
open Go Blobstore Hotcache Interaction

section Rules
variable (content : Contents) (guarded : Prop) (cfg : Config) (opens : Operation → Prop)
  (admits : Admission pipeline Node Operation) (op : Operation)

/-- The action does not panic, keeps the discipline and returns into `post`. -/
abbrev Yields (x : Action α) (history : History pipeline) (w : Node)
    (post : History pipeline → α → Node → Prop) : Prop :=
  Returns (nodeMachine cfg (Plain content.told) opens admits) (custody content guarded) op x
    history w post

theorem custody_coherent : (custody content guarded).Coherent :=
  ⟨Keeps.refl, Keeps.trans, fun _ keeps => keeps⟩

variable {content guarded cfg opens admits op} {w : Node} {history : History pipeline}

/-- A call: that it respects the discipline may use how the run was restricted. -/
theorem Yields.call_bind {c : Call} {f : c.Result → Action α}
    {post : History pipeline → α → Node → Prop}
    (respects : ∀ w' result, Keeps content guarded w w' → Consistent content w' →
      admits op history w' (.call c) (.returned result) → Respects content guarded w' (.call c))
    (next : ∀ w' result, Keeps content guarded w w' → Consistent content w' →
      CallLearns content w' c result →
      (∃ w'', admits op history w'' (.call c) (.returned result)) →
      Yields content guarded cfg opens admits op (f result)
        (history ++ [⟨.call c, .returned result⟩]) w' post) :
    Yields content guarded cfg opens admits op (call c >>= f) history w post := by
  rintro w₁ rely inv reply w₂ admitted ⟨⟨fault, plain⟩, served⟩
  obtain ⟨result, rfl⟩ := plain.returned served
  obtain ⟨kept, keeps, result', same, learned⟩ :=
    serve_keeps inv plain (respects w₁ result rely inv admitted) served
  cases same
  exact ⟨kept, keeps, next w₂ result (Keeps.trans rely keeps) kept learned ⟨w₁, admitted⟩⟩

theorem Yields.call {c : Call} {post : History pipeline → c.Result → Node → Prop}
    (respects : ∀ w' result, Keeps content guarded w w' → Consistent content w' →
      admits op history w' (.call c) (.returned result) → Respects content guarded w' (.call c))
    (ends : ∀ w' result, Keeps content guarded w w' → Consistent content w' →
      CallLearns content w' c result → ∀ w'', Keeps content guarded w' w'' →
      Consistent content w'' → post (history ++ [⟨.call c, .returned result⟩]) result w'') :
    Yields content guarded cfg opens admits op (call c) history w post := by
  rintro w₁ rely inv reply w₂ admitted ⟨⟨fault, plain⟩, served⟩
  obtain ⟨result, rfl⟩ := plain.returned served
  obtain ⟨kept, keeps, result', same, learned⟩ :=
    serve_keeps inv plain (respects w₁ result rely inv admitted) served
  cases same
  exact ⟨kept, keeps, fun w₃ later inv' =>
    ⟨result, rfl, ends w₂ result (Keeps.trans rely keeps) kept learned w₃ later inv'⟩⟩

theorem Yields.access_bind {q : Request} (own : ∀ c, q ≠ .call c) {f : q.Reply → Action α}
    {post : History pipeline → α → Node → Prop}
    (respects : ∀ w', Keeps content guarded w w' → Consistent content w' →
      Respects content guarded w' q)
    (next : ∀ w' reply, Keeps content guarded w w' → Consistent content w' →
      Learns content w' q reply →
      Yields content guarded cfg opens admits op (f reply) (history ++ [⟨q, reply⟩]) w' post) :
    Yields content guarded cfg opens admits op (access q >>= f) history w post := by
  rintro w₁ rely inv reply w₂ _ ⟨⟨fault, _⟩, served⟩
  obtain ⟨kept, keeps, learned⟩ := access_keeps inv own (respects w₁ rely inv) served
  exact ⟨kept, keeps, next w₂ reply (Keeps.trans rely keeps) kept learned⟩

theorem Yields.access {q : Request} (own : ∀ c, q ≠ .call c)
    {post : History pipeline → q.Reply → Node → Prop}
    (respects : ∀ w', Keeps content guarded w w' → Consistent content w' →
      Respects content guarded w' q)
    (ends : ∀ reply w', post (history ++ [⟨q, reply⟩]) reply w') :
    Yields content guarded cfg opens admits op (access q) history w post := by
  rintro w₁ rely inv reply w₂ _ ⟨⟨fault, _⟩, served⟩
  obtain ⟨kept, keeps, _⟩ := access_keeps inv own (respects w₁ rely inv) served
  exact ⟨kept, keeps, fun w₃ _ _ => ⟨reply, rfl, ends reply w₃⟩⟩

end Rules

/-- No restore is cut short unnoticed: with the largest limit, where the reader is
always at its end, the store's checksum still tells the empty body from any other. -/
structure RestoresWhole (cfg : Config) (content : Contents) : Prop where
  range : IsInt64 cfg.maxRestoreBytes
  distinct : cfg.maxRestoreBytes = maxInt64 → content.told ∧
    ∀ b, checksumSHA256 (content b) = checksumSHA256 [] → content b = []

section Operations
variable {content : Contents} {guarded : Prop} {cfg : Config} {opens : Operation → Prop}
  {admits : Admission pipeline Node Operation} {op : Operation} {w : Node}
  {history : History pipeline}

theorem restoreBody_restored (whole : RestoresWhole cfg content)
    (described : content.Described b info.size info.checksumSHA256)
    (ok : restoreBody cfg.maxRestoreBytes b (.ok (⟨content b, none⟩, info)) = .ok (body, info')) :
    body = content b ∧ content.Described b info'.size info'.checksumSHA256 := by
  obtain ⟨bytes, rfl, verified⟩ := restoreBody_ok whole.range ok
  have right : body = content b := by
    split at bytes
    · rename_i largest
      obtain ⟨told, distinct⟩ := whole.distinct largest
      have checksum := (described told).checksum.symm
      rcases verified with missing | same
      · exact absurd (checksum.trans missing) (checksumSHA256_ne_empty _)
      · rw [bytes] at same ⊢
        exact (distinct b (checksum.trans same)).symm
    · exact bytes
  exact ⟨right, fun told => ⟨(described told).size, by rw [right]⟩⟩

/-- Flight `n` is one of blob `b`. -/
def Keyed (w : Node) (n : Nat) (b : String) : Prop :=
  ∃ flight, w.flight .restore n = some flight ∧ flight.blobID = b

theorem Keyed.keeps (keyed : Keyed w n b) (keeps : Keeps content guarded w w') : Keyed w' n b := by
  obtain ⟨flight, found, named⟩ := keyed
  obtain ⟨flight', found', named', _⟩ := keeps.flights n flight found
  exact ⟨flight', found', named'.trans named⟩

/-- The leader makes its result known and lands. -/
theorem publish_yields {f : Unit → Action α} (keyed : Keyed w n b)
    (sound : err = none → Restored content w.store b body info)
    (next : ∀ history w', Keeps content guarded w w' → Consistent content w' →
      Yields content guarded cfg opens admits op (f ()) history w' post) :
    Yields content guarded cfg opens admits op
      (access (.publish .restore n err body info) >>= fun _ => land .restore b n >>= f) history w
      post := by
  have respects : ∀ w', Keeps content guarded w w' → Consistent content w' →
      Respects content guarded w' (.publish .restore n err body info) := by
    intro w' keeps _ flight found noErr
    obtain ⟨same, found', named⟩ := keyed.keeps keeps
    cases found.symm.trans found'
    rw [show (flight.publish err body info).blobID = b from named]
    exact (sound noErr).mono keeps.stored
  refine Yields.access_bind (by simp) respects fun w₁ _ keeps₁ inv₁ published => ?_
  have closes : ∀ w', Keeps content guarded w₁ w' → Consistent content w' →
      Respects content guarded w' (.closeDone .restore n) := by
    intro w' keeps _ flight found
    obtain ⟨before, found₁, _⟩ := keyed.keeps keeps₁
    obtain ⟨same, found', _, stays⟩ := keeps.flights n before found₁
    cases found.symm.trans found'
    exact stays (published before found₁)
  have landed : Yields content guarded cfg opens admits op (land .restore b n)
      (history ++ [⟨.publish .restore n err body info, ()⟩]) w₁ fun _ _ _ => True :=
    Yields.access_bind (by simp) closes fun w₂ _ _ _ _ =>
      Yields.access (by simp) (fun _ _ _ => trivial) fun _ _ => trivial
  exact Returns.bind (custody_coherent _ _) inv₁ landed fun history _ w' keeps inv _ =>
    next history w' (keeps₁.trans keeps) inv

theorem restoreFromL2_yields (whole : RestoresWhole cfg content) (ctx : Context) (b : String) :
    Yields content guarded cfg opens admits op (restoreFromL2 cfg ctx b) history w
      fun _ result w' => ∀ body info, result = .ok (body, info) →
        Restored content w'.store b body info := by
  refine Yields.access_bind (by simp) (fun _ _ _ => trivial) fun w₁ reply _ inv₁ joined => ?_
  obtain ⟨n, flight, how, found, named⟩ := joined
  have keyed : Keyed w₁ n b := ⟨flight, found, named⟩
  rcases how with rfl | rfl
  · -- The leader: what the store answered is all of the object, or an error.
    have asked : Yields content guarded cfg opens admits op (recovered (call (.storeGet ctx { key := b })))
        (history ++ [⟨.join .restore b, .leads n⟩]) w₁ fun _ answer w' => ∃ result,
          answer = .ok result ∧ ∀ r info, result = .ok (r, info) → r = ⟨content b, none⟩ ∧
            Stored w'.store b ∧ content.Described b info.size info.checksumSHA256 :=
      Returns.recovered (Yields.call (fun _ _ _ _ _ => trivial)
        fun w' result _ _ learned w'' keeps _ r info ok => by
          obtain ⟨bytes, stored, described⟩ := learned r info ok
          exact ⟨bytes, keeps.stored b stored, described⟩)
    refine Returns.bind (custody_coherent _ _) inv₁ asked fun history _ w₂ keeps inv₂ answered => ?_
    obtain ⟨result, rfl, learned⟩ := answered
    split
    · contradiction
    · rename_i answer same
      cases same
      split
      · rename_i err failed
        exact publish_yields (keyed.keeps keeps) (by simp) fun _ _ _ _ =>
          Returns.pure fun _ _ _ _ _ impossible => by contradiction
      · rename_i body info restored
        have sound : Restored content w₂.store b body info := by
          match result, learned, restored with
          | .ok (r, answered), learned, restored =>
            obtain ⟨rfl, stored, described⟩ := learned r answered rfl
            obtain ⟨right, described'⟩ := restoreBody_restored whole described restored
            exact ⟨right, stored, described'⟩
        refine publish_yields (keyed.keeps keeps) (fun _ => sound) fun _ _ later _ =>
          Returns.pure fun _ last _ body' info' ok => ?_
        cases ok
        exact sound.mono (later.trans last).stored
  · -- A waiter: the record of a landed flight is sound, and it is one of this blob.
    refine Yields.access_bind (by simp) (fun _ _ _ => trivial) fun w₂ reply keeps inv₂ awaited => ?_
    cases reply with
    | error err => exact Returns.pure fun _ _ _ _ _ impossible => by contradiction
    | ok record =>
      obtain ⟨found', sound⟩ := awaited record rfl
      obtain ⟨same, found'', rfl⟩ := keyed.keeps keeps
      cases found'.symm.trans found''
      simp only
      split
      · exact Returns.pure fun _ _ _ _ _ impossible => by contradiction
      · rename_i noErr
        refine Returns.pure fun _ later _ body info ok => ?_
        cases ok
        exact (sound noErr).mono later.stored

/-- An upload that succeeds left the object and reports what it is. -/
def Uploaded (content : Contents) (b : String) (_ : History pipeline)
    (result : Except GoError PutResult) (w : Node) : Prop :=
  ∀ res, result = .ok res → Stored w.store b ∧ content.Described b res.size res.checksumSHA256

section
variable (ctx : Context)

theorem promoteSingle_yields (b : String) (status : BlobStatus) :
    Yields content guarded cfg opens admits op (promoteSingle ctx b ⟨content b, none⟩ status) history w
      (Uploaded content b) := by
  refine Yields.call_bind (fun _ _ _ _ _ => rfl) fun w₁ result _ _ learned _ => ?_
  match result, learned with
  | .error err, _ => exact .fails
  | .ok (res, hashed), learned =>
    obtain ⟨stored, described⟩ := learned res hashed rfl
    simp only
    split
    · exact .fails
    · refine Returns.pure fun _ keeps _ res' ok => ?_
      cases ok
      exact ⟨keeps.stored b stored, described⟩

/-- Part numbers are right as long as uploads succeed: the first one that is not
fits no upload. -/
theorem uploadParts_yields (target : MultipartUpload) (n : Nat) :
    ∀ (first : Nat) (history : History pipeline) (w : Node), first < 2 ^ 31 →
      Yields content guarded cfg opens admits op
        (uploadParts ctx target promotePartSize (content target.key) (List.range' first n)) history w
        fun _ result _ => ∀ parts, result = .ok parts →
          parts.map CompletedPart.partNumber = (List.range' first n).map fun i : Nat => (i : Int) + 1 := by
  induction n with
  | zero =>
    intro first history w _
    refine Returns.pure fun _ _ _ parts ok => ?_
    cases ok
    rfl
  | succ n ih =>
    intro first history w small
    rw [List.range'_succ, uploadParts]
    have right : 1 ≤ partNumber first → partNumber first = first + 1 ∧ first + 1 < 2 ^ 31 := by
      intro positive
      by_cases last : first = 2 ^ 31 - 1
      · have wraps := partNumber_wraps
        rw [← last] at wraps
        omega
      · exact ⟨partNumber_eq (by omega), by omega⟩
    generalize partNumber first = sent at right ⊢
    refine Yields.call_bind (fun _ _ _ _ _ positive => ?_) fun w₁ result _ inv₁ learned _ => ?_
    · have index : (sent - 1).toNat = first := by
        have number := (right positive).1
        omega
      exact congrArg (slice promotePartSize (content target.key)) index.symm
    · match result, learned with
      | .error err, _ => exact .fails
      | .ok part, learned =>
        obtain ⟨positive, numbered⟩ := learned part rfl
        obtain ⟨number, small⟩ := right positive
        refine Returns.bind (custody_coherent _ _) inv₁ (ih (first + 1) _ w₁ small)
          fun _ rest w₂ _ _ others => ?_
        split
        · exact .fails
        · rename_i parts
          refine Returns.pure fun _ _ _ all ok => ?_
          cases ok
          simp [others parts rfl, numbered, number]

theorem completeParts_yields (target : MultipartUpload) (status : BlobStatus)
    (numbered : parts.map CompletedPart.partNumber =
      partNumbers (partCount promotePartSize (content target.key).length)) (missing : Option Int) :
    Yields content guarded cfg opens admits op
      (completeParts ctx target (content target.key) status parts missing) history w
      (Uploaded content target.key) := by
  unfold completeParts
  split
  · exact .fails
  · split
    · exact .fails
    · refine Yields.call_bind (fun _ _ _ _ _ => numbered) fun w₂ result _ _ learned _ => ?_
      match result, learned with
      | .error err, _ => exact .fails
      | .ok res, learned =>
        obtain ⟨stored, described⟩ := learned res rfl
        refine Returns.pure fun _ keeps _ res' ok => ?_
        cases ok
        exact ⟨keeps.stored _ stored, described⟩

theorem sendParts_yields (inv : Consistent content w) (ctx : Context) (target : MultipartUpload)
    (status : BlobStatus) :
    Yields content guarded cfg opens admits op
      (sendParts ctx target ⟨content target.key, none⟩ status) history w
      (Uploaded content target.key) := by
  unfold sendParts
  simp only [List.range_eq_range']
  refine Returns.bind (custody_coherent _ _) inv (uploadParts_yields ctx target _ 0 _ w (by decide))
    fun _ result w₁ _ inv₁ numbered => ?_
  split
  · exact .fails
  · rename_i parts
    exact completeParts_yields ctx target status
      ((numbered parts rfl).trans (by rw [← List.range_eq_range', partNumbers])) _

theorem promoteMultipart_yields (b : String) (status : BlobStatus) :
    Yields content guarded cfg opens admits op (promoteMultipart ctx b ⟨content b, none⟩ status)
      history w (Uploaded content b) := by
  refine Yields.call_bind (fun _ _ _ _ _ => trivial) fun w₁ result _ inv₁ learned _ => ?_
  match result, learned with
  | .error err, _ => exact .fails
  | .ok target, learned =>
    obtain rfl : target.key = b := learned target rfl
    refine Returns.bind (custody_coherent _ _) inv₁ (sendParts_yields inv₁ ctx target status).recovered
      fun _ _ w₂ _ _ sent => ?_
    obtain ⟨result, rfl, uploaded⟩ := sent
    match result, uploaded with
    | .ok res, uploaded =>
      refine Returns.pure fun _ keeps _ res' ok => ?_
      cases ok
      exact ⟨keeps.stored _ (uploaded res rfl).1, (uploaded res rfl).2⟩
    | .error err, _ =>
      exact Yields.call_bind (fun _ _ _ _ _ => trivial) fun _ _ _ _ _ _ =>
        .fails

theorem sendBody_yields (b : String) (status : BlobStatus) :
    Yields content guarded cfg opens admits op (sendBody ctx b ⟨content b, none⟩ status) history w
      (Uploaded content b) := by
  unfold sendBody
  split
  · exact promoteMultipart_yields ctx b status
  · exact promoteSingle_yields ctx b status

theorem clearProtection_yields (stored : Stored w.store b) (ctx : Context) (status : BlobStatus) :
    Yields content guarded cfg opens admits op (clearProtection ctx b status) history w
      fun _ _ _ => True := by
  refine Yields.call_bind (fun _ _ _ _ _ => trivial) fun w₁ result keeps₁ _ learned _ => ?_
  match result, learned with
  | .error err, _ => exact .done
  | .ok (r, md), learned =>
    obtain rfl := learned r md rfl
    refine Yields.call_bind (fun w' _ keeps _ _ => ⟨rfl, rfl, fun _ => ?_⟩)
      fun _ _ _ _ _ _ => .done
    exact keeps.stored b (keeps₁.stored b stored)

theorem upload_yields (b : String) (status : BlobStatus) :
    Yields content guarded cfg opens admits op (upload ctx b status) history w fun _ _ _ => True := by
  refine Yields.call_bind (fun _ _ _ _ _ => trivial) fun w₁ result _ inv₁ learned _ => ?_
  match result, learned with
  | .error err, _ => exact .done
  | .ok (r, md), learned =>
    obtain rfl := learned r md rfl
    refine Returns.bind (custody_coherent _ _) inv₁ (sendBody_yields ctx b status)
      fun _ result w₂ _ _ uploaded => ?_
    match result, uploaded with
    | .error err, _ => exact .done
    | .ok res, uploaded =>
      obtain ⟨stored, described⟩ := uploaded res rfl
      refine Yields.call_bind (fun _ _ keeps _ _ => ⟨keeps.stored b stored, described⟩)
        fun w₃ result keeps inv₃ _ _ => ?_
      match result with
      | some err => exact .done
      | none =>
        exact Returns.bind (custody_coherent _ _) inv₃ (clearProtection_yields (keeps.stored b stored) ctx status)
          fun _ _ _ _ _ _ => .done

theorem promoteLocked_yields (b : String) :
    Yields content guarded cfg opens admits op (promoteLocked ctx b) history w fun _ _ _ => True := by
  refine Yields.call_bind (fun _ _ _ _ _ => trivial) fun w₁ result _ _ learned _ => ?_
  match result, learned with
  | .error err, _ => exact .done
  | .ok none, _ => exact .done
  | .ok (some status), learned =>
    obtain ⟨described, _⟩ := learned status rfl
    simp only
    split
    · exact .done
    · refine Yields.call_bind (fun _ _ _ _ _ => trivial) fun w₂ head _ _ found _ => ?_
      split
      · rename_i matched
        -- Only an answer matches, and there is an answer only for an object.
        have stored : Stored w₂.store b := by
          cases head with
          | error err => simp [headMatches] at matched
          | ok info => exact found info rfl
        refine Yields.access_bind (by simp) (fun _ _ _ => trivial) fun w₃ _ keeps _ _ => ?_
        refine Yields.call_bind (fun _ _ later _ _ => ?_) fun _ result _ _ _ _ => ?_
        · exact ⟨later.stored b (keeps.stored b stored), described⟩
        · match result with
          | some err => exact .done
          | none => exact .done
      · exact upload_yields ctx b status

theorem promote_yields (b : String) :
    Yields content guarded cfg opens admits op (promote ctx b) history w fun _ _ _ => True := by
  have lands : ∀ n err history (w : Node), Yields content guarded cfg opens admits op
      (access (.publish .promote n err [] {}) >>= fun _ => land .promote b n >>= fun _ => pure err)
      history w fun _ _ _ => True := fun n err history w =>
    Yields.access_bind (by simp) (fun _ _ _ => trivial) fun w₁ _ _ inv₁ _ =>
      Returns.bind (custody_coherent _ _) inv₁
        (Yields.access_bind (by simp) (fun _ _ _ => trivial) fun _ _ _ _ _ =>
          Yields.access (by simp) (fun _ _ _ => trivial) fun _ _ => trivial)
        fun _ _ _ _ _ (_ : True) => .done
  refine Yields.access_bind (by simp) (fun _ _ _ => trivial) fun w₁ joined _ inv₁ _ => ?_
  match joined with
  | .waits n =>
    refine Yields.access_bind (by simp) (fun _ _ _ => trivial) fun _ reply _ _ _ => ?_
    match reply with
    | .error err => exact .done
    | .ok record => exact .done
  | .leads n =>
    refine Returns.bind (custody_coherent _ _) inv₁ (promoteLocked_yields ctx b).recovered
      fun _ _ w₂ _ _ worked => ?_
    obtain ⟨err, rfl, _⟩ := worked
    exact lands n err _ w₂

theorem write_yields (b : String) (opts : WriteOptions) :
    Yields content guarded cfg opens admits op (write ctx b (content b) opts) history w
      fun _ result w' => ∀ res, result = .ok res → guarded → content.lasting →
        Holds content w' b := by
  unfold write
  split
  · exact .fails
  · refine Yields.call_bind (fun _ _ _ _ _ => ⟨rfl, rfl, by simp⟩) fun w₁ result _ _ held _ => ?_
    match result, held with
    | some err, _ => exact .fails
    | none, held =>
      -- From here on the body is held, and nothing the write still does undoes that.
      have stays : ∀ w', Keeps content guarded w₁ w' → guarded → content.lasting →
          Holds content w' b := fun w' keeps guard last => keeps.held guard last b (held rfl)
      refine Yields.access_bind (by simp) (fun _ _ _ => trivial) fun w₂ now keeps₂ _ _ => ?_
      refine Yields.call_bind (fun _ _ _ _ _ => ⟨fun _ => ⟨rfl, rfl⟩, by simp⟩)
        fun w₃ result keeps₃ inv₃ _ _ => ?_
      have keeps := keeps₂.trans keeps₃
      match result with
      | some err => exact .fails
      | none =>
        simp only
        split
        · refine Returns.bind (custody_coherent _ _) inv₃ (promote_yields ctx b)
            fun _ err w₄ keeps₄ _ _ => ?_
          match err with
          | some err => exact .fails
          | none => exact Returns.pure fun _ last _ _ _ => stays _ ((keeps.trans keeps₄).trans last)
        · exact Returns.pure fun _ last _ _ _ => stays _ (keeps.trans last)

end

theorem fillCache_yields {b : String} {body : Bytes} {info : ObjectMeta}
    (restored : Restored content w.store b body info) :
    Yields content guarded cfg opens admits op (fillCache ⟨b, body, info⟩) history w
      fun _ _ _ => True := by
  obtain ⟨rfl, stored, described⟩ := restored
  refine Yields.access_bind (by simp) (fun _ _ _ => trivial) fun w₁ reply keeps₁ _ _ => ?_
  match reply with
  | some err => exact .done
  | none =>
    refine Yields.call_bind (fun _ _ keeps _ _ => ⟨rfl, rfl, fun _ => ?_⟩) fun w₂ _ keeps₂ _ _ _ => ?_
    · exact (keeps₁.trans keeps).stored b stored
    · refine Yields.call_bind (fun _ _ keeps _ _ => ⟨described, fun _ => ?_⟩)
        fun _ _ _ _ _ _ => .done
      exact ((keeps₁.trans keeps₂).trans keeps).stored b stored

/-- Where every lookup after a hit finds a row, a Read describes what it returns. -/
theorem read_yields (whole : RestoresWhole cfg content) {truthful : Prop}
    (finds : truthful → ∀ history w ctx b result,
      admits op history w (.call (.statusGet ctx b)) (.returned result) → ∃ row, result = .ok (some row))
    (ctx : Context) (b : String) :
    Yields content guarded cfg opens admits op (read cfg ctx b) history w
      fun _ result _ => ∀ res, result = .ok res → truthful → res.body.failure = none ∧
        (content.told → Describes res.body.data res.size res.checksumSHA256) := by
  unfold read
  split
  · exact .fails
  · refine Yields.call_bind (fun _ _ _ _ _ => trivial) fun w₁ result _ inv₁ learned _ => ?_
    match result, learned with
    | .ok (r, md), learned =>
      obtain rfl := learned r md rfl
      refine Yields.call_bind (fun _ _ _ _ _ => trivial) fun w₂ looked _ _ rows admitted => ?_
      obtain ⟨w', admitted⟩ := admitted
      match looked, rows with
      | .ok (some row), rows =>
        refine Returns.pure fun _ _ _ res ok _ => ?_
        cases ok
        exact ⟨rfl, (rows row rfl).1⟩
      | .ok none, _ =>
        refine Returns.pure fun _ _ _ _ _ truthful => ?_
        obtain ⟨row, impossible⟩ := finds truthful _ w' ctx b _ admitted
        cases impossible
      | .error err, _ =>
        refine Returns.pure fun _ _ _ _ _ truthful => ?_
        obtain ⟨row, impossible⟩ := finds truthful _ w' ctx b _ admitted
        cases impossible
    | .error err, _ =>
      simp only
      split
      · refine Returns.bind (custody_coherent _ _) inv₁ (restoreFromL2_yields whole ctx b)
          fun _ result w₂ _ _ restored => ?_
        match result, restored with
        | .error err, _ => exact .fails
        | .ok (body, info), restored =>
          obtain ⟨rfl, stored, described⟩ := restored body info rfl
          refine Yields.access_bind (by simp) (fun _ keeps _ => ?_) fun _ _ _ _ _ => ?_
          · exact ⟨rfl, keeps.stored b stored, described⟩
          · refine Returns.pure fun _ _ _ res ok _ => ?_
            cases ok
            exact ⟨rfl, described⟩
      · exact .fails

/-- The lookup of this Evict found a row. -/
def lookupFound (history : History pipeline) : Bool :=
  history.any fun
    | ⟨.call (.statusGet ..), .returned (.ok (some _))⟩ => true
    | _ => false

theorem evict_yields (guard : guarded → ∀ history w ctx b result,
      admits op history w (.call (.cacheEvict ctx b)) (.returned result) →
      lookupFound history = true ∨ Stored w.store b ∨ w.cache.view b = none)
    (ctx : Context) (b : String) :
    Yields content guarded cfg opens admits op (evict ctx b) [] w fun _ _ _ => True := by
  refine Yields.call_bind (fun _ _ _ _ _ => trivial) fun w₁ looked _ _ rows _ => ?_
  match looked, rows with
  | .ok (some row), rows =>
    by_cases durable : row.commitState = .durable
    · have stored := (rows row rfl).2 durable
      simp only [durable, ne_eq, not_true_eq_false]
      exact Yields.call (fun _ _ keeps _ _ _ => .inl (keeps.stored b stored)) fun _ _ _ _ _ _ _ _ => trivial
    · simp only [durable, ne_eq, not_false_eq_true]
      exact .done
  | .ok none, _ =>
    refine Yields.call (fun w' result _ _ admitted guarded => ?_) fun _ _ _ _ _ _ _ _ => trivial
    exact (guard guarded _ w' ctx b result admitted).resolve_left (by simp [lookupFound])
  | .error err, _ =>
    refine Yields.call (fun w' result _ _ admitted guarded => ?_) fun _ _ _ _ _ _ _ _ => trivial
    exact (guard guarded _ w' ctx b result admitted).resolve_left (by simp [lookupFound])

/-- What a returned operation tells in every later state. -/
def Tells (content : Contents) (guarded truthful : Prop) :
    Operation → Except String Answer → Node → Prop
  | .write _ b _ _, .ok (.wrote (.ok _)), w => guarded → content.lasting → Holds content w b
  | .read _ _, .ok (.read (.ok result)), _ => truthful → result.body.failure = none ∧
    (content.told → Describes result.body.data result.size result.checksumSHA256)
  | _, _, _ => True

/-- Every operation that may start: a write carries its blob's body, a fill what a
restore returned. -/
def Startable (content : Contents) (w : Node) : Operation → Prop
  | .write _ b body _ => body = content b
  | .fill task => Restored content w.store task.blobID task.body task.info
  | _ => True

theorem body_yields (whole : RestoresWhole cfg content) {truthful : Prop}
    (guard : guarded → ∀ history w ctx b result,
      admits op history w (.call (.cacheEvict ctx b)) (.returned result) →
      lookupFound history = true ∨ Stored w.store b ∨ w.cache.view b = none)
    (finds : truthful → ∀ reader name, op = .read reader name → ∀ history w ctx b result,
      admits op history w (.call (.statusGet ctx b)) (.returned result) → ∃ row, result = .ok (some row))
    (startable : Startable content w op) :
    Yields content guarded cfg opens admits op (op.body cfg) [] w
      fun _ answer w' => Tells content guarded truthful op (.ok answer) w' := by
  cases op with
  | write ctx b body opts =>
    obtain rfl : body = content b := startable
    refine Returns.map ((write_yields ctx b opts).mono fun _ result w' _ held => ?_)
    cases result with
    | error err => trivial
    | ok res => exact held res rfl
  | read ctx b =>
    refine Returns.map ((read_yields whole (fun truth => finds truth ctx b rfl) ctx b).mono
      fun _ result w' _ described => ?_)
    cases result with
    | error err => trivial
    | ok res => exact described res rfl
  | promote ctx b => exact Returns.map ((promote_yields ctx b).mono fun _ _ _ _ _ => trivial)
  | evict ctx b => exact Returns.map ((evict_yields guard ctx b).mono fun _ _ _ _ _ => trivial)
  | fill task => exact Returns.map ((fillCache_yields startable).mono fun _ _ _ _ _ => trivial)

/-- All operations together, under any restriction of their runs that guards
evictions (if `guarded`) and lets lookups succeed (if `truthful`). -/
theorem operations_compose (whole : RestoresWhole cfg content) {truthful : Prop}
    (same : ∀ ctx b body opts, opens (.write ctx b body opts) → body = content b)
    (guard : guarded → ∀ op history w ctx b result,
      admits op history w (.call (.cacheEvict ctx b)) (.returned result) →
      lookupFound history = true ∨ Stored w.store b ∨ w.cache.view b = none)
    (finds : truthful → ∀ reader name history w ctx b result,
      admits (.read reader name) history w (.call (.statusGet ctx b)) (.returned result) →
      ∃ row, result = .ok (some row)) :
    Composes (nodeMachine cfg (Plain content.told) opens admits) (custody content guarded)
      fun op _ => Tells content guarded truthful op where
  toCoherent := custody_coherent _ _
  environment := by
    rintro w w' inv ⟨change, changed⟩
    obtain ⟨now, ctxErr, rfl⟩ : ∃ now ctxErr, w' = { w with clock := now, ctxErr := ctxErr } := by
      cases change <;> simp only [driver, World.change] at changed <;> split at changed <;>
        cases changed <;> exact ⟨_, _, rfl⟩
    exact ⟨{ inv with }, { (Keeps.refl w : Keeps content guarded w w) with }⟩
  starts := by
    rintro w op w' inv ⟨opened, started⟩
    suffices ready : Consistent content w' ∧ Keeps content guarded w w' ∧ Startable content w' op by
      obtain ⟨inv', keeps, startable⟩ := ready
      refine ⟨inv', keeps, Assures.mono ?_ (body_yields whole (fun g => guard g op)
        (by rintro truth reader name rfl; exact finds truth reader name) startable)⟩
      rintro _ _ _ _ ⟨value, rfl, told⟩
      exact told
    cases op with
    | write ctx b body opts =>
      cases started
      exact ⟨inv, .refl w, same ctx b body opts opened⟩
    | fill task =>
      simp only [driver, World.starts] at started
      split at started
      · rename_i pending
        cases started
        exact ⟨{ inv with fills := fun other member => inv.fills other (List.mem_of_mem_erase member) },
          { (Keeps.refl w : Keeps content guarded w w) with }, inv.fills task pending⟩
      · contradiction
    | read | promote | evict =>
      cases started
      exact ⟨inv, .refl w, trivial⟩

end Operations
end KDrive.Blobio
