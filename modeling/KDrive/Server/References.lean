import KDrive.Interaction.Duties
import KDrive.Server.Drive

/-! References between the rows of different tenants. The foreign keys name rows, not tenants,
so whether a reference stays within its tenant is up to the handler that makes it. -/
namespace KDrive.Server
open Go Interaction Metadata

structure DriveTables where
  tenants : List DriveTenant
  folders : List Folder
  nodes : List FileNode := []
  grants : List ShareGrant := []
  envelopes : List KeyEnvelope := []
  snapshots : List AccessContextSnapshot := []
  domains : String → Option EncryptionDomain := fun _ => none

namespace DriveTables

def tenant (t : DriveTables) (id : String) : Option DriveTenant := t.tenants.find? (·.id = id)
def folder (t : DriveTables) (id : String) : Option Folder := t.folders.find? (·.id = id)
def node (t : DriveTables) (id : String) : Option FileNode := t.nodes.find? (·.id = id)
def grant (t : DriveTables) (id : String) : Option ShareGrant := t.grants.find? (·.id = id)

/-- NULL refers to nothing. -/
def refers {α : Type} (row : Option α) (id : String) : Bool := id = "" || row.isSome

/-- `ON CONFLICT (id) DO NOTHING`; `none` where a foreign key is violated. The key of the
parent is checked with the new row in place. -/
def insertFolder (t : DriveTables) (f : Folder) : Option DriveTables :=
  let t' := { t with folders := t.folders ++ [f] }
  if (t.folder f.id).isSome then some t
  else if (t.tenant f.tenantID).isSome && refers (t'.folder f.parentFolderID) f.parentFolderID then
    some t'
  else none

def insertNode (t : DriveTables) (n : FileNode) : Option DriveTables :=
  if (t.node n.id).isNone && (t.tenant n.tenantID).isSome && (t.folder n.folderID).isSome then
    some { t with nodes := t.nodes ++ [n] }
  else none

def insertGrant (t : DriveTables) (g : ShareGrant) : Option DriveTables :=
  if (t.grant g.id).isNone && (t.tenant g.tenantID).isSome && refers (t.node g.nodeID) g.nodeID &&
      refers (t.envelopes.find? (·.id = g.keyEnvelopeID)) g.keyEnvelopeID then
    some { t with grants := t.grants ++ [g] }
  else none

/-- The row a revocation is about. -/
def revocable (id tenantID : String) (g : ShareGrant) : Bool :=
  g.id = id && g.tenantID = tenantID && g.isActive

def revokeGrant (t : DriveTables) (id tenantID : String) : DriveTables :=
  { t with grants := t.grants.map fun g =>
      if revocable id tenantID g then { g with isActive := false } else g }

/-- The transaction of `RotateEncryptionDomain`; `none` where it ends in an error. -/
def rotateDomain (t : DriveTables) (id tenantID : String) (prevKeyEnvelope : Bytes) :
    Option DriveTables :=
  match t.domains id with
  | none => none
  | some dom =>
    if dom.tenantID = tenantID ∧ IsInteger (dom.generation + 1) then
      some { t with domains := Function.update t.domains id (some { dom with
        generation := dom.generation + 1
        prevGeneration := some dom.generation
        prevKeyEnvelope := some prevKeyEnvelope }) }
    else none

end DriveTables

/-- A query can fail. -/
def readTables {α : Type} (t : DriveTables) (luck : Luck) (answer : α) :
    Option (Except GoError α × DriveTables) :=
  if luck.fate = .done then some (.ok answer, t) else some (.error luck.err, t)

/-- A statement takes effect as a whole or not at all; it has none where a constraint is
violated. -/
def writeTables {α : Type} (t : DriveTables) (luck : Luck) (answer : α)
    (after : Option DriveTables) : Option (Except GoError α × DriveTables) :=
  match after, luck.fate with
  | some t', .done => some (.ok answer, t')
  | some t', .lost => some (.error luck.err, t')
  | _, _ => some (.error luck.err, t)

/-- `ORDER BY created_at LIMIT 1000`. -/
def listed {α : Type} (luck : Luck) (rows : List α) : List α := (reorder luck.order rows).take 1000

def DriveTables.serve (luck : Luck) : Executor driveInterface DriveTables := fun t q =>
  match q with
  | .selectTenants => readTables t luck (reorder luck.order t.tenants)
  | .insertFolder f => writeTables t luck () (t.insertFolder f)
  | .selectFolders tenantID parentFolderID => readTables t luck
      (listed luck (t.folders.filter fun f =>
        f.tenantID = tenantID ∧ f.parentFolderID = parentFolderID))
  | .selectFolder id => readTables t luck (t.folder id)
  | .insertNode n => writeTables t luck () (t.insertNode n)
  | .selectNodes folderID tenantID => readTables t luck
      (listed luck (t.nodes.filter fun n => n.folderID = folderID ∧ n.tenantID = tenantID))
  | .insertGrant g => writeTables t luck () (t.insertGrant g)
  | .selectGrants granteeUserID tenantID => readTables t luck
      (listed luck (t.grants.filter fun g =>
        g.granteeUserID = granteeUserID ∧ g.tenantID = tenantID ∧ g.isActive))
  | .revokeGrant id tenantID => writeTables t luck
      (t.grants.countP (DriveTables.revocable id tenantID)) (some (t.revokeGrant id tenantID))
  | .selectSnapshot nodeID tenantID => readTables t luck
      ((t.snapshots.filter fun a => a.nodeID = nodeID ∧ a.tenantID = tenantID).maxOn?
        AccessContextSnapshot.revision)
  | .selectDomain id tenantID => readTables t luck
      ((t.domains id).filter fun dom => dom.tenantID = tenantID)
  | .rotateDomain id tenantID prevKeyEnvelope => writeTables t luck ()
      (t.rotateDomain id tenantID prevKeyEnvelope)
  | .selectEnvelopes domainID tenantID => readTables t luck
      (listed luck (t.envelopes.filter fun e => e.domainID = domainID ∧ e.tenantID = tenantID))
  | .generateID _ => some (luck.id, t)

def driveDriver : Driver driveInterface DriveTables DriveRequest Luck Empty where
  serve _ := DriveTables.serve
  starts t _ := some t
  change e _ := e.elim

def drive (metaDB : Bool) (admits : Admission driveInterface DriveTables DriveRequest) :
    Machine driveInterface DriveTables DriveRequest DriveAnswer :=
  driveDriver.machine (DriveRequest.handle metaDB) (fun _ => True) admits

/-- The rows of migration 003. -/
def seedTenants : List DriveTenant :=
  [⟨"tenant_b2c", "pool_b2c", "max", "b2c", "b2c-zone"⟩,
    ⟨"tenant_acme", "pool_acme", "secured", "b2b", "acme"⟩,
    ⟨"tenant_globex", "pool_globex", "secured", "b2b", "globex"⟩,
    ⟨"tenant_initech", "pool_initech", "secured", "b2b", "initech"⟩]

/-- Sixteen zero bytes and the name. -/
def seedName (name : String) : Bytes := List.replicate 16 0 ++ name.toUTF8.toList

def seedRoots (company : String) : List Folder :=
  [⟨"folder_" ++ company ++ "_secured", "tenant_" ++ company, "", seedName "Secured", "secured"⟩,
    ⟨"folder_" ++ company ++ "_advanced", "tenant_" ++ company, "", seedName "Advanced", "advanced"⟩,
    ⟨"folder_" ++ company ++ "_max", "tenant_" ++ company, "", seedName "Max", "max"⟩]

def seedFolders : List Folder :=
  seedRoots "acme" ++ seedRoots "globex" ++ seedRoots "initech" ++
    [⟨"folder_b2c_personal", "tenant_b2c", "", seedName "My Files", "max"⟩]

def seed : DriveTables := { tenants := seedTenants, folders := seedFolders }

/-- No reference leaves its tenant. -/
structure WithinTenants (t : DriveTables) : Prop where
  folders : ∀ f ∈ t.folders, f.parentFolderID ≠ "" →
    ∃ parent, t.folder f.parentFolderID = some parent ∧ parent.tenantID = f.tenantID
  nodes : ∀ n ∈ t.nodes, ∃ folder, t.folder n.folderID = some folder ∧ folder.tenantID = n.tenantID
  grants : ∀ g ∈ t.grants, g.nodeID ≠ "" →
    ∃ node, t.node g.nodeID = some node ∧ node.tenantID = g.tenantID

/-- Folders are only made below folders of their tenant, and grants for nodes of theirs. -/
def OwnReference (t : DriveTables) : DriveCall → Prop
  | .insertFolder f => ∀ parent, f.parentFolderID ≠ "" → t.folder f.parentFolderID = some parent →
      parent.tenantID = f.tenantID
  | .insertGrant g => ∀ node, g.nodeID ≠ "" → t.node g.nodeID = some node →
      node.tenantID = g.tenantID
  | _ => True

def OwnReferences : Admission driveInterface DriveTables DriveRequest :=
  fun _ _ t q _ => OwnReference t q

def anyReferences : Admission driveInterface DriveTables DriveRequest := fun _ _ _ _ _ => True

/-- Folders and nodes stay as they are. -/
structure Rooted (a b : DriveTables) : Prop where
  folder : ∀ id f, a.folder id = some f → b.folder id = some f
  node : ∀ id n, a.node id = some n → b.node id = some n

theorem Rooted.refl (t : DriveTables) : Rooted t t :=
  ⟨fun _ _ found => found, fun _ _ found => found⟩

theorem Rooted.trans {a b c : DriveTables} (first : Rooted a b) (second : Rooted b c) :
    Rooted a c :=
  ⟨fun id f found => second.folder id f (first.folder id f found),
    fun id n found => second.node id n (first.node id n found)⟩

def tenancy : Discipline DriveTables := ⟨WithinTenants, Rooted, Rooted⟩

theorem tenancy_coherent : tenancy.Coherent :=
  ⟨Rooted.refl, fun first second => first.trans second, fun _ rooted => rooted⟩

/-- What a request does to the tables, if it does anything. -/
def DriveTables.Effect (t : DriveTables) : DriveCall → DriveTables → Prop
  | .insertFolder f, t' => t.insertFolder f = some t'
  | .insertNode n, t' => t.insertNode n = some t'
  | .insertGrant g, t' => t.insertGrant g = some t'
  | .revokeGrant id tenantID, t' => t' = t.revokeGrant id tenantID
  | .rotateDomain id tenantID envelope, t' => t.rotateDomain id tenantID envelope = some t'
  | _, _ => False

theorem DriveTables.serve_cases (served : DriveTables.serve luck t q = some (reply, t')) :
    t' = t ∨ t.Effect q t' := by
  have read {α : Type} {answer : α} {reply : Except GoError α}
      (served : readTables t luck answer = some (reply, t')) : t' = t := by
    unfold readTables at served
    split at served <;> cases served <;> rfl
  have write {α : Type} {answer : α} {reply : Except GoError α} {after : Option DriveTables}
      (served : writeTables t luck answer after = some (reply, t')) : t' = t ∨ after = some t' := by
    unfold writeTables at served
    split at served <;> cases served
    · exact .inr rfl
    · exact .inr rfl
    · exact .inl rfl
  cases q with
  | insertFolder | insertNode | insertGrant | rotateDomain => exact write served
  | revokeGrant => exact (write served).imp_right fun same => (Option.some.inj same).symm
  | generateID =>
    cases served
    exact .inl rfl
  | _ => exact .inl (read served)

theorem find?_append_old {l : List α} {p : α → Bool} (found : l.find? p = some x) (more : List α) :
    (l ++ more).find? p = some x := by
  rw [List.find?_append, found]
  rfl

section
variable {t t' : DriveTables}

theorem insertFolder_rooted (inserted : t.insertFolder f = some t') : Rooted t t' := by
  unfold DriveTables.insertFolder at inserted
  dsimp only at inserted
  split at inserted
  · cases inserted
    exact Rooted.refl t
  · split at inserted
    · cases inserted
      exact ⟨fun _ _ found => find?_append_old found [f], fun _ _ found => found⟩
    · cases inserted

variable (within : WithinTenants t)
include within

/-- What refers to older rows still does. -/
theorem WithinTenants.rooted (rooted : Rooted t t')
    (folders : ∀ f ∈ t'.folders, f ∈ t.folders ∨ (f.parentFolderID ≠ "" →
      ∃ parent, t'.folder f.parentFolderID = some parent ∧ parent.tenantID = f.tenantID))
    (nodes : ∀ n ∈ t'.nodes, n ∈ t.nodes ∨
      ∃ folder, t.folder n.folderID = some folder ∧ folder.tenantID = n.tenantID)
    (grants : ∀ g ∈ t'.grants, (∃ old ∈ t.grants, old.nodeID = g.nodeID ∧
        old.tenantID = g.tenantID) ∨ (g.nodeID ≠ "" →
      ∃ node, t.node g.nodeID = some node ∧ node.tenantID = g.tenantID)) :
    WithinTenants t' := by
  constructor
  · intro f member named
    rcases folders f member with old | new
    · obtain ⟨parent, found, same⟩ := within.folders f old named
      exact ⟨parent, rooted.folder _ _ found, same⟩
    · exact new named
  · intro n member
    rcases nodes n member with old | ⟨folder, found, same⟩
    · obtain ⟨folder, found, same⟩ := within.nodes n old
      exact ⟨folder, rooted.folder _ _ found, same⟩
    · exact ⟨folder, rooted.folder _ _ found, same⟩
  · intro g member named
    rcases grants g member with ⟨old, there, node, tenant⟩ | new
    · obtain ⟨node, found, same⟩ := within.grants old there (node ▸ named)
      rw [‹old.nodeID = g.nodeID›] at found
      exact ⟨node, rooted.node _ _ found, same.trans tenant⟩
    · obtain ⟨node, found, same⟩ := new named
      exact ⟨node, rooted.node _ _ found, same⟩

theorem WithinTenants.insertFolder
    (own : ∀ parent, f.parentFolderID ≠ "" → t.folder f.parentFolderID = some parent →
      parent.tenantID = f.tenantID)
    (inserted : t.insertFolder f = some t') : WithinTenants t' := by
  have rooted := insertFolder_rooted inserted
  unfold DriveTables.insertFolder at inserted
  dsimp only at inserted
  split at inserted
  · cases inserted
    exact within
  · split at inserted
    · rename_i valid
      cases inserted
      apply within.rooted rooted
      · intro other member
        rcases List.mem_append.mp member with old | new
        · exact .inl old
        · obtain rfl := List.mem_singleton.mp new
          refine .inr fun named => ?_
          -- The key holds; the parent is an older row or the new one itself.
          simp only [DriveTables.refers, Bool.and_eq_true, Bool.or_eq_true, decide_eq_true_eq,
            named, false_or] at valid
          obtain ⟨parent, found⟩ := Option.isSome_iff_exists.mp valid.2
          refine ⟨parent, found, ?_⟩
          simp only [DriveTables.folder, List.find?_append, Option.or_eq_some_iff] at found
          rcases found with older | ⟨-, itself⟩
          · exact own parent named older
          · obtain rfl := List.mem_singleton.mp (List.mem_of_find?_eq_some itself)
            rfl
      · exact fun n member => .inl member
      · exact fun g member => .inl ⟨g, member, rfl, rfl⟩
    · cases inserted

theorem insertNode_kept
    (own : ∃ folder, t.folder n.folderID = some folder ∧ folder.tenantID = n.tenantID)
    (inserted : t.insertNode n = some t') : WithinTenants t' ∧ Rooted t t' := by
  unfold DriveTables.insertNode at inserted
  split at inserted
  · cases inserted
    have rooted : Rooted t { t with nodes := t.nodes ++ [n] } :=
      ⟨fun _ _ found => found, fun _ _ found => find?_append_old found [n]⟩
    refine ⟨within.rooted rooted (fun f member => .inl member) ?_
      (fun g member => .inl ⟨g, member, rfl, rfl⟩), rooted⟩
    intro other member
    rcases List.mem_append.mp member with old | new
    · exact .inl old
    · obtain rfl := List.mem_singleton.mp new
      exact .inr own
  · cases inserted

theorem insertGrant_kept
    (own : ∀ node, g.nodeID ≠ "" → t.node g.nodeID = some node → node.tenantID = g.tenantID)
    (inserted : t.insertGrant g = some t') : WithinTenants t' ∧ Rooted t t' := by
  unfold DriveTables.insertGrant at inserted
  split at inserted
  · rename_i valid
    cases inserted
    have rooted : Rooted t { t with grants := t.grants ++ [g] } :=
      ⟨fun _ _ found => found, fun _ _ found => found⟩
    refine ⟨within.rooted rooted (fun f member => .inl member) (fun n member => .inl member) ?_,
      rooted⟩
    intro other member
    rcases List.mem_append.mp member with old | new
    · exact .inl ⟨other, old, rfl, rfl⟩
    · obtain rfl := List.mem_singleton.mp new
      refine .inr fun named => ?_
      simp only [DriveTables.refers, Bool.and_eq_true, Bool.or_eq_true, decide_eq_true_eq, named,
        false_or] at valid
      obtain ⟨node, found⟩ := Option.isSome_iff_exists.mp valid.1.2
      exact ⟨node, found, own node named found⟩
  · cases inserted

theorem revokeGrant_kept (id tenantID : String) :
    WithinTenants (t.revokeGrant id tenantID) ∧ Rooted t (t.revokeGrant id tenantID) := by
  have rooted : Rooted t (t.revokeGrant id tenantID) :=
    ⟨fun _ _ found => found, fun _ _ found => found⟩
  refine ⟨within.rooted rooted (fun f member => .inl member) (fun n member => .inl member) ?_,
    rooted⟩
  intro g member
  obtain ⟨old, there, rfl⟩ := List.mem_map.mp member
  refine .inl ⟨old, there, ?_⟩
  split <;> exact ⟨rfl, rfl⟩

theorem rotateDomain_kept {id : String}
    (rotated : t.rotateDomain id tenantID envelope = some t') : WithinTenants t' ∧ Rooted t t' := by
  unfold DriveTables.rotateDomain at rotated
  cases there : t.domains id with
  | none => simp [there] at rotated
  | some dom =>
    simp only [there] at rotated
    split at rotated
    · cases rotated
      exact ⟨⟨within.folders, within.nodes, within.grants⟩,
        ⟨fun _ _ found => found, fun _ _ found => found⟩⟩
    · cases rotated

end

section
variable {metaDB : Bool} {r : DriveRequest} {history : History driveInterface} {t : DriveTables}

/-- Nothing is claimed of the answers. -/
def anyAnswer (_ : History driveInterface) (_ : DriveAnswer) (_ : DriveTables) : Prop := True

theorem assures_answer {answer : DriveAnswer} :
    Assures (drive metaDB admits) tenancy r anyAnswer (.ret answer) history t :=
  fun _ _ _ => trivial

/-- One request keeps references within tenants, given that the node it inserts, if any, goes
into a folder of its tenant. -/
theorem serve_kept {q : DriveCall} {reply : driveInterface.Reply q} (within : WithinTenants t)
    (admitted : OwnReference t q)
    (own : ∀ n, q = .insertNode n → ∃ folder, t.folder n.folderID = some folder ∧
      folder.tenantID = n.tenantID)
    (served : DriveTables.serve luck t q = some (reply, t')) :
    WithinTenants t' ∧ Rooted t t' := by
  rcases DriveTables.serve_cases served with rfl | effect
  · exact ⟨within, Rooted.refl _⟩
  · clear served
    cases q with
    | insertFolder f => exact ⟨within.insertFolder admitted effect, insertFolder_rooted effect⟩
    | insertNode n => exact insertNode_kept within (own n rfl) effect
    | insertGrant g => exact insertGrant_kept within admitted effect
    | revokeGrant id tenantID =>
      subst effect
      exact revokeGrant_kept within id tenantID
    | rotateDomain id tenantID envelope => exact rotateDomain_kept within effect
    | _ => exact effect.elim

/-- Whatever the answer, references stay within tenants. -/
abbrev KeepsTenants (metaDB : Bool) (r : DriveRequest) (p : DriveProgram DriveAnswer) :
    History driveInterface → DriveTables → Prop :=
  Assures (drive metaDB OwnReferences) tenancy r anyAnswer p

theorem assures_ask {q : DriveCall} {next : DriveCall.Reply q → DriveProgram DriveAnswer}
    (own : ∀ n, q = .insertNode n → ∃ folder, t.folder n.folderID = some folder ∧
      folder.tenantID = n.tenantID)
    (rest : ∀ reply h t', KeepsTenants metaDB r (next reply) h t') :
    KeepsTenants metaDB r (.ask q next) history t := by
  intro t₁ rely within reply t₂ admitted served
  obtain ⟨luck, served⟩ := served
  have still (n : FileNode) (same : q = .insertNode n) :
      ∃ folder, t₁.folder n.folderID = some folder ∧ folder.tenantID = n.tenantID := by
    obtain ⟨folder, found, tenant⟩ := own n same
    exact ⟨folder, rely.folder _ _ found, tenant⟩
  obtain ⟨kept, rooted⟩ := serve_kept within admitted still served
  exact ⟨kept, rooted, rest reply _ t₂⟩

/-- A folder that is found stays. -/
theorem assures_getFolder {id : String} {f : Except GoError Folder → DriveProgram DriveAnswer}
    (failed : ∀ err h t', KeepsTenants metaDB r (f (.error err)) h t')
    (found : ∀ folder h t', t'.folder id = some folder →
      KeepsTenants metaDB r (f (.ok folder)) h t') :
    KeepsTenants metaDB r (getFolder id >>= f) history t := by
  intro t₁ rely within reply t₂ admitted served
  obtain ⟨luck, served⟩ := served
  have read : t₂ = t₁ ∧ ∀ folder, reply = .ok (some folder) → t₁.folder id = some folder := by
    unfold driveDriver DriveTables.serve readTables at served
    dsimp only at served
    split at served <;> cases served
    · exact ⟨rfl, fun folder same => Except.ok.inj same⟩
    · exact ⟨rfl, fun folder impossible => by cases impossible⟩
  obtain ⟨rfl, there⟩ := read
  refine ⟨within, Rooted.refl _, ?_⟩
  match reply with
  | .error err => exact failed _ _ t₂
  | .ok none => exact failed _ _ t₂
  | .ok (some folder) => exact found folder _ t₂ (there folder rfl)

/-- The program inserts no node. -/
def NoNode : DriveProgram DriveAnswer → Prop := Plain fun q _ => ∃ n, q = .insertNode n

theorem NoNode.ask {q : DriveCall} {next : DriveCall.Reply q → DriveProgram DriveAnswer}
    (other : ∀ n, q ≠ .insertNode n) (rest : ∀ reply, NoNode (next reply)) :
    NoNode (.ask q next) :=
  fun reply => ⟨fun ⟨n, same⟩ => other n same, rest reply⟩

theorem NoNode.assures {p : DriveProgram DriveAnswer} (noNode : NoNode p) :
    KeepsTenants metaDB r p history t := by
  induction p generalizing history t with
  | ret answer => exact assures_answer
  | ask q next ih =>
    intro t₁ rely within reply
    refine assures_ask ?_ (fun reply _ _ => ih reply (noNode reply).2) t₁ rely within reply
    exact fun n same => absurd ⟨n, same⟩ (noNode reply).1

theorem noNode_tenants (verb : Verb) : NoNode (handleTenants metaDB verb) := by
  unfold handleTenants
  repeat' split
  all_goals try exact trivial
  exact NoNode.ask (by simp) fun reply => by cases reply <;> trivial

theorem noNode_foldersRoot (verb : Verb) (tenantID parent : String) (body : Option FolderBody) :
    NoNode (handleFoldersRoot metaDB verb tenantID parent body) := by
  unfold handleFoldersRoot
  repeat' split
  all_goals try exact trivial
  · exact NoNode.ask (by simp) fun reply => by cases reply <;> trivial
  -- Either way of choosing the privacy mode.
  all_goals refine NoNode.ask (by simp) fun folderID => ?_
  all_goals exact NoNode.ask (by simp) fun reply => by cases reply <;> trivial

/-- The folder is looked up and compared before the node goes in. -/
theorem folderChildren_assures (verb : Verb) (tenantID path : String) (body : Option NodeBody) :
    KeepsTenants metaDB r (handleFolderChildren metaDB verb tenantID path body) history t := by
  unfold handleFolderChildren
  repeat' split
  all_goals try exact assures_answer
  · apply assures_getFolder fun _ _ _ => assures_answer
    intro folder h t₁ _
    apply NoNode.assures
    dsimp only
    split
    · trivial
    · refine NoNode.ask (by simp) fun reply => ?_
      cases reply with
      | error err => trivial
      | ok subFolders => exact NoNode.ask (by simp) fun reply => by cases reply <;> trivial
  · apply assures_getFolder
    · exact fun _ _ _ => assures_answer
    · intro folder h t₁ found
      dsimp only
      split
      · exact assures_answer
      · intro t₂ rely within nodeID t₃ admitted served
        obtain ⟨luck, served⟩ := served
        cases served
        refine ⟨within, Rooted.refl _, ?_⟩
        apply assures_ask
        · rintro n same
          cases same
          exact ⟨folder, rely.folder _ folder found, rfl⟩
        · intro reply h t'
          cases reply <;> exact assures_answer

theorem noNode_node (verb : Verb) (userID tenantID path : String) (body : Option GrantBody) :
    NoNode (handleNode metaDB verb userID tenantID path body) := by
  unfold handleNode
  repeat' split
  all_goals try exact trivial
  · exact NoNode.ask (by simp) fun reply => by rcases reply with _ | _ | _ <;> trivial
  · refine NoNode.ask (by simp) fun grantID => ?_
    exact NoNode.ask (by simp) fun reply => by cases reply <;> trivial

theorem noNode_domain (verb : Verb) (tenantID path : String) (hex : Option String) :
    NoNode (handleDomain metaDB verb tenantID path hex) := by
  unfold handleDomain
  dsimp only
  repeat' split
  all_goals try exact trivial
  · exact NoNode.ask (by simp) fun reply => by cases reply <;> trivial
  · refine NoNode.ask (by simp) fun reply => ?_
    cases reply with
    | error err => trivial
    | ok _ => exact NoNode.ask (by simp) fun reply => by rcases reply with _ | _ | _ <;> trivial
  · exact NoNode.ask (by simp) fun reply => by rcases reply with _ | _ | _ <;> trivial

theorem noNode_sharesRoot (verb : Verb) (userID tenantID : String) :
    NoNode (handleSharesRoot metaDB verb userID tenantID) := by
  unfold handleSharesRoot
  repeat' split
  all_goals try exact trivial
  exact NoNode.ask (by simp) fun reply => by cases reply <;> trivial

theorem noNode_shareRevoke (verb : Verb) (tenantID grantID : String) :
    NoNode (handleShareRevoke metaDB verb tenantID grantID) := by
  unfold handleShareRevoke
  repeat' split
  all_goals try exact trivial
  refine NoNode.ask (by simp) fun reply => ?_
  cases reply with
  | error err => trivial
  | ok n =>
    dsimp only [Program.ret_bind]
    split <;> trivial

theorem handle_assures : KeepsTenants metaDB r (r.handle metaDB) history t := by
  unfold DriveRequest.handle
  dsimp only
  split
  · exact (noNode_tenants r.verb).assures
  · exact (noNode_foldersRoot ..).assures
  · exact folderChildren_assures ..
  · exact (noNode_node ..).assures
  · exact (noNode_domain ..).assures
  · exact (noNode_sharesRoot ..).assures
  · exact (noNode_shareRevoke ..).assures

end

theorem tenancy_composes (metaDB : Bool) :
    Composes (drive metaDB OwnReferences) tenancy fun _ => anyAnswer where
  toCoherent := tenancy_coherent
  environment := by
    rintro a b - ⟨change, -⟩
    exact change.elim
  starts := by
    rintro a r b within ⟨-, started⟩
    cases started
    exact ⟨within, Rooted.refl _, handle_assures⟩

theorem seed_within : WithinTenants seed := by
  have roots : ∀ f ∈ seed.folders, f.parentFolderID = "" := by
    simp [seed, seedFolders, seedRoots]
  constructor
  · exact fun f member named => absurd (roots f member) named
  · exact fun n member => absurd member List.not_mem_nil
  · exact fun g member => absurd member List.not_mem_nil

/-- If folders are only made below folders of their own tenant, and grants for nodes of theirs,
no reference ever leaves its tenant, in any interleaving of any requests. -/
theorem withinTenants_of_own (metaDB : Bool)
    (run : (drive metaDB OwnReferences).Reaches ⟨seed, []⟩ s) : WithinTenants s.world := by
  have initial : tenancy.invariant seed := seed_within
  exact (tenancy_composes metaDB).invariant initial run

/-- A folder below a folder of another tenant. -/
def crossesFolder (t : DriveTables) : Bool :=
  t.folders.any fun f => f.parentFolderID ≠ "" &&
    (t.folder f.parentFolderID).all fun parent => parent.tenantID ≠ f.tenantID

/-- A grant for a node of another tenant. -/
def crossesGrant (t : DriveTables) : Bool :=
  t.grants.any fun g => g.nodeID ≠ "" &&
    (t.node g.nodeID).all fun node => node.tenantID ≠ g.tenantID

theorem not_within_of_folder (crosses : crossesFolder t = true) : ¬ WithinTenants t := by
  intro within
  obtain ⟨f, member, crossing⟩ := List.any_eq_true.mp crosses
  obtain ⟨named, foreign⟩ := Bool.and_eq_true_iff.mp crossing
  obtain ⟨parent, found, same⟩ := within.folders f member (by simpa using named)
  simp [found, same] at foreign

theorem not_within_of_grant (crosses : crossesGrant t = true) : ¬ WithinTenants t := by
  intro within
  obtain ⟨g, member, crossing⟩ := List.any_eq_true.mp crosses
  obtain ⟨named, foreign⟩ := Bool.and_eq_true_iff.mp crossing
  obtain ⟨node, found, same⟩ := within.grants g member (by simpa using named)
  simp [found, same] at foreign

def asTenant (tenantID : String) : Headers := { xDemoUser := "user", xDemoTenant := tenantID }

/-- POST /v1/folders. -/
def newFolder (tenantID parent : String) : DriveRequest :=
  ⟨.post, asTenant tenantID, .folders "" (some ⟨"00", parent, ""⟩)⟩

/-- POST /v1/folders/{folder_id}/children. -/
def newNode (tenantID folderID : String) : DriveRequest :=
  ⟨.post, asTenant tenantID, .folderChildren (folderID ++ "/children") (some ⟨"00", "text/plain"⟩)⟩

/-- POST /v1/nodes/{node_id}/shares. -/
def newGrant (tenantID nodeID : String) : DriveRequest :=
  ⟨.post, asTenant tenantID, .node (nodeID ++ "/shares") (some ⟨"friend", ""⟩)⟩

/-- A tenant makes a folder below another tenant's, or a grant for another tenant's node. -/
theorem foreign_references_made :
    (∃ s, (drive true anyReferences).Reaches ⟨seed, []⟩ s ∧ crossesFolder s.world = true ∧
      ¬ WithinTenants s.world) ∧
    ∃ s, (drive true anyReferences).Reaches ⟨seed, []⟩ s ∧ crossesGrant s.world = true ∧
      ¬ WithinTenants s.world := by
  have folder : (driveDriver.follow (DriveRequest.handle true) (fun _ _ _ _ _ => true)
      [.start (newFolder "tenant_globex" "folder_acme_secured"), .call 0 { id := "folder_1" },
        .call 0 {}] ⟨seed, []⟩).any (fun s => crossesFolder s.world) = true := by
    decide +kernel
  have grant : (driveDriver.follow (DriveRequest.handle true) (fun _ _ _ _ _ => true)
      [.start (newNode "tenant_acme" "folder_acme_secured"), .call 0 {}, .call 0 { id := "node_1" },
        .call 0 {}, .start (newGrant "tenant_globex" "node_1"), .call 1 { id := "grant_1" },
        .call 1 {}] ⟨seed, []⟩).any (fun s => crossesGrant s.world) = true := by
    decide +kernel
  constructor
  · obtain ⟨s, run, crosses⟩ := driveDriver.follow_exhibits (fun _ _ _ _ _ _ => trivial)
      (fun _ _ => trivial) folder
    exact ⟨s, run, crosses, not_within_of_folder crosses⟩
  · obtain ⟨s, run, crosses⟩ := driveDriver.follow_exhibits (fun _ _ _ _ _ _ => trivial)
      (fun _ _ => trivial) grant
    exact ⟨s, run, crosses, not_within_of_grant crosses⟩

/-- The executable side of `OwnReference`. -/
def checksReference (_ : DriveRequest) (_ : History driveInterface) (t : DriveTables)
    (q : DriveCall) (_ : DriveCall.Reply q) : Bool :=
  match q with
  | .insertFolder f => f.parentFolderID = "" ||
      (t.folder f.parentFolderID).all fun parent => parent.tenantID = f.tenantID
  | .insertGrant g => g.nodeID = "" || (t.node g.nodeID).all fun node => node.tenantID = g.tenantID
  | _ => true

theorem checksReference_sound (r : DriveRequest) (history : History driveInterface) (t : DriveTables)
    (q : DriveCall) (reply : DriveCall.Reply q)
    (checked : checksReference r history t q reply = true) : OwnReferences r history t q reply := by
  cases q with
  | insertFolder f =>
    intro parent named found
    simpa [checksReference, named, found] using checked
  | insertGrant g =>
    intro node named found
    simpa [checksReference, named, found] using checked
  | _ => trivial

/-- A folder, a node in it and a grant for the node, all of one tenant. -/
theorem withinTenants_own_tree :
    ∃ s, (drive true OwnReferences).Reaches ⟨seed, []⟩ s ∧ s.world.grants.length = 1 ∧
      WithinTenants s.world := by
  have tree : (driveDriver.follow (DriveRequest.handle true) checksReference
      [.start (newFolder "tenant_acme" "folder_acme_max"), .call 0 { id := "folder_1" }, .call 0 {},
        .start (newNode "tenant_acme" "folder_1"), .call 1 {}, .call 1 { id := "node_1" }, .call 1 {},
        .start (newGrant "tenant_acme" "node_1"), .call 2 { id := "grant_1" }, .call 2 {}]
      ⟨seed, []⟩).any (fun s => s.world.grants.length = 1) = true := by
    decide +kernel
  obtain ⟨s, run, one⟩ := driveDriver.follow_exhibits checksReference_sound (fun _ _ => trivial) tree
  exact ⟨s, run, of_decide_eq_true one, withinTenants_of_own true run⟩

end KDrive.Server
