import KDrive.Blobio.World

/-! Proof rules for the pipeline's programs under interference: one for each way an
action is put together. `Ensures` speaks of the action's return and of the panic
that may end it instead. -/
namespace KDrive.Blobio
open Interaction
variable {W Op α β : Type} {M : Machine pipeline W Op ρ} {D : Discipline W} {op : Op}

/-- The action keeps invariant and guarantee and ends in `post`. -/
def Ensures (M : Machine pipeline W Op ρ) (D : Discipline W) (op : Op) (x : Action α)
    (history : History pipeline) (w : W)
    (post : History pipeline → Except String α → W → Prop) : Prop :=
  Assures M D op post x.run history w

variable {x : Action α}

theorem Ensures.mono {post stronger : History pipeline → Except String α → W → Prop}
    (implies : ∀ history result w, D.invariant w → stronger history result w →
      post history result w)
    (ensures : Ensures M D op x history w stronger) : Ensures M D op x history w post :=
  Assures.mono implies ensures

theorem Ensures.bind {f : α → Action β} {post : History pipeline → Except String β → W → Prop}
    (refl : ∀ w, D.rely w w) (initial : D.invariant w)
    (ensures : Ensures M D op x history w fun history result w =>
      match result with
      | .ok value => Ensures M D op (f value) history w post
      | .error message => Ensures M D op (MonadExcept.throw message) history w post) :
    Ensures M D op (x >>= f) history w post := by
  refine Assures.bind (p := x.run) refl initial (Assures.mono ?_ ensures)
  intro history result w _ rest
  cases result with
  | ok value => exact rest
  | error message => exact rest

theorem Ensures.map {f : α → β} {post : History pipeline → Except String β → W → Prop}
    (ensures : Ensures M D op x history w fun history result w => post history (result.map f) w) :
    Ensures M D op (x >>= fun value => Pure.pure (f value)) history w post := by
  have same : (x >>= fun value => (Pure.pure (f value) : Action β)).run =
      x.run >>= fun result => .ret (result.map f) :=
    congrArg (Program.bind x.run) (funext fun result => by cases result <;> rfl)
  rw [Ensures, same]
  exact Assures.map ensures

theorem Ensures.recovered {post : History pipeline → Except String (Except String α) → W → Prop}
    (ensures : Ensures M D op x history w fun history result w => post history (.ok result) w) :
    Ensures M D op (recovered x) history w post :=
  Assures.map (p := x.run) ensures

theorem Ensures.call {c : Call} {post : History pipeline → Except String c.Result → W → Prop}
    (served : ∀ w₁, D.rely w w₁ → D.invariant w₁ → ∀ (reply : Outcome c.Result) w₂,
      M.admits op history w₁ (.call c) reply → M.handler op w₁ (.call c) reply w₂ →
      D.invariant w₂ ∧ D.guarantee w₁ w₂ ∧ ∀ w₃, D.rely w₂ w₃ → D.invariant w₃ →
        match reply with
        | .returned value => post (history ++ [⟨.call c, reply⟩]) (.ok value) w₃
        | .panicked message => post (history ++ [⟨.call c, reply⟩]) (.error message) w₃) :
    Ensures M D op (call c) history w post := by
  intro w₁ rely inv reply w₂ admitted step
  obtain ⟨kept, guaranteed, ends⟩ := served w₁ rely inv reply w₂ admitted step
  refine ⟨kept, guaranteed, ?_⟩
  cases reply with
  | returned value => exact ends
  | panicked message => exact ends

theorem Ensures.access {q : Request} {post : History pipeline → Except String q.Reply → W → Prop}
    (served : ∀ w₁, D.rely w w₁ → D.invariant w₁ → ∀ (reply : q.Reply) w₂,
      M.admits op history w₁ q reply → M.handler op w₁ q reply w₂ →
      D.invariant w₂ ∧ D.guarantee w₁ w₂ ∧ ∀ w₃, D.rely w₂ w₃ → D.invariant w₃ →
        post (history ++ [⟨q, reply⟩]) (.ok reply) w₃) :
    Ensures M D op (access q) history w post := by
  intro w₁ rely inv reply w₂ admitted step
  exact served w₁ rely inv reply w₂ admitted step

/-- The action does not panic and returns into `post`. -/
def Returns (M : Machine pipeline W Op ρ) (D : Discipline W) (op : Op) (x : Action α)
    (history : History pipeline) (w : W) (post : History pipeline → α → W → Prop) : Prop :=
  Ensures M D op x history w fun history result w => ∃ value, result = .ok value ∧ post history value w

section Returns
variable {w : W} {history : History pipeline}

variable {post : History pipeline → α → W → Prop}

theorem Returns.pure {value : α}
    (ends : ∀ w', D.rely w w' → D.invariant w' → post history value w') :
    Returns M D op (pure value) history w post :=
  fun w' rely inv => ⟨value, rfl, ends w' rely inv⟩

theorem Returns.done {value : α} : Returns M D op (Pure.pure value) history w fun _ _ _ => True :=
  Returns.pure fun _ _ _ => trivial

/-- Nothing is asked of a failure. -/
theorem Returns.fails {ε : Type} {err : ε} :
    Returns M D op (Pure.pure (Except.error err)) history w fun full result w' =>
      ∀ value, result = Except.ok value → post full value w' :=
  Returns.pure fun _ _ _ _ ok => by cases ok

theorem Returns.mono {post stronger : History pipeline → α → W → Prop}
    (returns : Returns M D op x history w stronger)
    (implies : ∀ history value w, D.invariant w → stronger history value w →
      post history value w) : Returns M D op x history w post := by
  refine Ensures.mono ?_ returns
  rintro history result w inv ⟨value, rfl, holds⟩
  exact ⟨value, rfl, implies history value w inv holds⟩

theorem Returns.bind {f : α → Action β} {post : History pipeline → β → W → Prop}
    {middle : History pipeline → α → W → Prop} (coherent : D.Coherent) (inv : D.invariant w)
    (first : Returns M D op x history w middle)
    (next : ∀ history value w', D.rely w w' → D.invariant w' → middle history value w' →
      Returns M D op (f value) history w' post) : Returns M D op (x >>= f) history w post := by
  refine Ensures.bind coherent.refl inv (Assures.mono ?_ (Assures.frame coherent first))
  rintro history result w' inv' ⟨rely, value, rfl, holds⟩
  exact next history value w' rely inv' holds

theorem Returns.extends (returns : Returns M D op x history w post) :
    Returns M D op x history w fun full value w' => history <+: full ∧ post full value w' := by
  refine Ensures.mono ?_ (Assures.extends returns)
  rintro full result w inv ⟨longer, value, rfl, holds⟩
  exact ⟨value, rfl, longer, holds⟩

theorem Returns.map {f : α → β} {post : History pipeline → β → W → Prop}
    (returns : Returns M D op x history w fun history value w => post history (f value) w) :
    Returns M D op (x >>= fun value => Pure.pure (f value)) history w post := by
  refine Ensures.map (Ensures.mono ?_ returns)
  rintro history result w inv ⟨value, rfl, holds⟩
  exact ⟨f value, rfl, holds⟩

theorem Returns.recovered (returns : Returns M D op x history w post) :
    Returns M D op (recovered x) history w fun history result w =>
      ∃ value, result = .ok value ∧ post history value w := by
  refine Ensures.recovered (Ensures.mono ?_ returns)
  rintro history result w inv ⟨value, rfl, holds⟩
  exact ⟨_, rfl, value, rfl, holds⟩

theorem Returns.call_bind {c : Call} {f : c.Result → Action α}
    (served : ∀ w₁, D.rely w w₁ → D.invariant w₁ → ∀ (reply : Outcome c.Result) w₂,
      M.admits op history w₁ (.call c) reply → M.handler op w₁ (.call c) reply w₂ →
      D.invariant w₂ ∧ D.guarantee w₁ w₂ ∧ ∃ result, reply = .returned result ∧
        Returns M D op (f result) (history ++ [⟨.call c, .returned result⟩]) w₂ post) :
    Returns M D op (call c >>= f) history w post := by
  intro w₁ rely inv reply w₂ admitted step
  obtain ⟨kept, guaranteed, result, rfl, rest⟩ := served w₁ rely inv reply w₂ admitted step
  exact ⟨kept, guaranteed, rest⟩

theorem Returns.access_bind {q : Request} {f : q.Reply → Action α}
    (served : ∀ w₁, D.rely w w₁ → D.invariant w₁ → ∀ (reply : q.Reply) w₂,
      M.admits op history w₁ q reply → M.handler op w₁ q reply w₂ →
      D.invariant w₂ ∧ D.guarantee w₁ w₂ ∧
        Returns M D op (f reply) (history ++ [⟨q, reply⟩]) w₂ post) :
    Returns M D op (access q >>= f) history w post := by
  intro w₁ rely inv reply w₂ admitted step
  exact served w₁ rely inv reply w₂ admitted step

end Returns

end KDrive.Blobio
