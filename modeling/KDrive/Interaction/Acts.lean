import KDrive.Interaction.Program

/-! What a program that runs alone asks for. `Acts` says that every request is allowed in
the world it is made in, next to what holds when the program returns. -/
namespace Interaction
variable {I : Interface} {W α β ε : Type} {H : Handler I W} {allowed : W → I.Request → Prop}

def Acts (H : Handler I W) (allowed : W → I.Request → Prop) :
    Program I α → (α → W → Prop) → W → Prop
  | .ret value, post, w => post value w
  | .ask q next, post, w =>
    allowed w q ∧ ∀ reply w', H w q reply w' → Acts H allowed (next reply) post w'

variable {p : Program I α} {post : α → W → Prop} {w w' : W}

theorem Acts.runs (acts : Acts H allowed p post w) (run : Runs H w p value w') :
    post value w' := by
  induction run with
  | ret => exact acts
  | ask step _ ih => exact ih (acts.2 _ _ step)

theorem Acts.mono {wider : W → I.Request → Prop} {post' : α → W → Prop}
    (acts : Acts H allowed p post w) (widens : ∀ w q, allowed w q → wider w q)
    (implies : ∀ value w, post value w → post' value w) : Acts H wider p post' w := by
  induction p generalizing w with
  | ret value => exact implies value w acts
  | ask q next ih =>
    refine ⟨widens w q acts.1, ?_⟩
    intro reply w' step
    exact ih reply (acts.2 reply w' step)

theorem Acts.imp {post' : α → W → Prop} (acts : Acts H allowed p post w)
    (implies : ∀ value w, post value w → post' value w) : Acts H allowed p post' w :=
  acts.mono (fun _ _ => id) implies

theorem Acts.bind {f : α → Program I β} {post' : β → W → Prop}
    (first : Acts H allowed p (fun value w => Acts H allowed (f value) post' w) w) :
    Acts H allowed (p >>= f) post' w := by
  induction p generalizing w with
  | ret value => exact first
  | ask q next ih =>
    refine ⟨first.1, ?_⟩
    intro reply w' step
    exact ih reply (first.2 reply w' step)

theorem Acts.request {q : I.Request} {post : I.Reply q → W → Prop} (fine : allowed w q)
    (served : ∀ reply w', H w q reply w' → post reply w') :
    Acts H allowed (Program.request q) post w :=
  ⟨fine, served⟩

/-- What every allowed request leaves true stays true. -/
theorem Acts.keeps {R : W → W → Prop} (refl : ∀ w, R w w)
    (trans : ∀ {a b c}, R a b → R b c → R a c)
    (step : ∀ {w q reply w'}, allowed w q → H w q reply w' → R w w')
    (acts : Acts H allowed p post w) :
    Acts H allowed p (fun value w' => post value w' ∧ R w w') w := by
  induction p generalizing w with
  | ret value => exact ⟨acts, refl w⟩
  | ask q next ih =>
    refine ⟨acts.1, ?_⟩
    intro reply w' served
    refine (ih reply (acts.2 reply w' served)).imp fun value w'' ⟨holds, later⟩ => ?_
    exact ⟨holds, trans (step acts.1 served) later⟩

/-- A world that can follow every allowed request follows the program. -/
theorem Acts.transfer {R : W → W → Prop} (acts : Acts H allowed p post w)
    (follows : ∀ {w u q reply w'}, allowed w q → R w u → H w q reply w' →
      ∃ u', H u q reply u' ∧ R w' u')
    (related : R w u) (run : Runs H w p value w') : ∃ u', Runs H u p value u' ∧ R w' u' := by
  induction run generalizing u with
  | ret => exact ⟨u, .ret, related⟩
  | ask served _ ih =>
    obtain ⟨u₁, answered, next⟩ := follows acts.1 related served
    obtain ⟨u', rest, last⟩ := ih (acts.2 _ _ served) next
    exact ⟨u', .ask answered rest, last⟩

/-- What the program asks for on the way of one run. -/
inductive Asked (H : Handler I W) : W → Program I α → W → I.Request → Prop where
  | here : Asked H u (.ask q next) u q
  | later : H u q reply u₁ → Asked H u₁ (next reply) u₂ q' → Asked H u (.ask q next) u₂ q'

theorem Acts.asked (acts : Acts H allowed p post w) {q : I.Request} (asked : Asked H w p w' q) :
    allowed w' q := by
  induction asked with
  | here => exact acts.1
  | later step _ ih => exact ih (acts.2 _ _ step)

section Exceptions
variable {x : ExceptT ε (Program I) α} {f : α → ExceptT ε (Program I) β}
  {after : Except ε β → W → Prop}

/-- What follows an action: the rest of the program, or its end with the error. -/
def Continues (H : Handler I W) (allowed : W → I.Request → Prop)
    (f : α → ExceptT ε (Program I) β) (after : Except ε β → W → Prop) :
    Except ε α → W → Prop
  | .ok value, w => Acts H allowed (f value).run after w
  | .error err, w => after (.error err) w

theorem Acts.step (first : Acts H allowed x.run (Continues H allowed f after) w) :
    Acts H allowed (x >>= f).run after w := by
  refine Acts.bind (p := x.run) (first.imp fun result w' continues => ?_)
  cases result with
  | ok value => exact continues
  | error err => exact continues

/-- What follows an action whose errors are handled. -/
def Handled (H : Handler I W) (allowed : W → I.Request → Prop)
    (handle : ε → ExceptT ε (Program I) α) (after : Except ε α → W → Prop) :
    Except ε α → W → Prop
  | .ok value, w => after (.ok value) w
  | .error err, w => Acts H allowed (handle err).run after w

theorem Acts.tryCatch {handle : ε → ExceptT ε (Program I) α} {after : Except ε α → W → Prop}
    (first : Acts H allowed x.run (Handled H allowed handle after) w) :
    Acts H allowed (tryCatch x handle).run after w := by
  refine Acts.bind (p := x.run) (first.imp fun result w' handled => ?_)
  cases result with
  | ok value => exact handled
  | error err => exact handled

theorem Runs.next (first : Runs H w x.run (.ok value) w₁) (rest : Runs H w₁ (f value).run result w') :
    Runs H w (x >>= f).run result w' :=
  Runs.bind (p := x.run) first rest

theorem Runs.caught {handle : ε → ExceptT ε (Program I) α} (first : Runs H w x.run (.error err) w₁)
    (rest : Runs H w₁ (handle err).run result w') : Runs H w (tryCatch x handle).run result w' :=
  Runs.bind (p := x.run) first rest

theorem Acts.lift {p : Program I α} {after : Except ε α → W → Prop}
    (acts : Acts H allowed p (fun value w => after (.ok value) w) w) :
    Acts H allowed (ExceptT.lift p : ExceptT ε (Program I) α).run after w :=
  Acts.bind (p := p) acts

end Exceptions
end Interaction
