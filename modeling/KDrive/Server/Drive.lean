import KDrive.Filesystem.Paths
import KDrive.Metadata.Domains
import KDrive.Server.ContentWorld

/-! The Drive API over the tables of migration 003: tenants, folders, nodes, share grants, access
contexts and domains. A NULL text is written as the empty text here, which is what the store
methods make of it in both directions. -/
namespace KDrive.Server
open Go Interaction Metadata

structure DriveTenant where
  id : String
  poolID : String
  privacyMode : String
  tenantType : String
  bucketName : String
  deriving DecidableEq

structure Folder where
  id : String
  tenantID : String
  parentFolderID : String
  nameEncrypted : Bytes
  privacyMode : String
  deriving DecidableEq

/-- A row of `nodes`. -/
structure FileNode where
  id : String
  tenantID : String
  folderID : String
  nameEncrypted : Bytes
  mimeType : String
  deriving DecidableEq

structure ShareGrant where
  id : String
  tenantID : String
  nodeID : String
  grantorUserID : String
  granteeUserID : String
  generation : Int
  isActive : Bool
  keyEnvelopeID : String
  deriving DecidableEq

structure KeyEnvelope where
  id : String
  domainID : String
  versionID : String
  tenantID : String
  envelopeType : String
  ciphertext : Bytes
  nonce : Bytes
  encapsulatedKey : Bytes
  deriving DecidableEq

structure AccessContextSnapshot where
  id : String
  tenantID : String
  nodeID : String
  revision : Int
  snapshotHash : Bytes
  aclCiphertext : Bytes
  deriving DecidableEq

/-- The statements of the store methods, one transaction, and the id generator. -/
inductive DriveCall where
  | selectTenants
  | insertFolder (folder : Folder)
  | selectFolders (tenantID parentFolderID : String)
  | selectFolder (id : String)
  | insertNode (node : FileNode)
  | selectNodes (folderID tenantID : String)
  | insertGrant (grant : ShareGrant)
  | selectGrants (granteeUserID tenantID : String)
  | revokeGrant (id tenantID : String)
  | selectSnapshot (nodeID tenantID : String)
  | selectDomain (id tenantID : String)
  | rotateDomain (id tenantID : String) (prevKeyEnvelope : Bytes)
  | selectEnvelopes (domainID tenantID : String)
  | generateID (kind : String)

def DriveCall.Reply : DriveCall → Type
  | .selectTenants => Except GoError (List DriveTenant)
  | .insertFolder .. => Except GoError Unit
  | .selectFolders .. => Except GoError (List Folder)
  | .selectFolder .. => Except GoError (Option Folder)
  | .insertNode .. => Except GoError Unit
  | .selectNodes .. => Except GoError (List FileNode)
  | .insertGrant .. => Except GoError Unit
  | .selectGrants .. => Except GoError (List ShareGrant)
  | .revokeGrant .. => Except GoError Nat
  | .selectSnapshot .. => Except GoError (Option AccessContextSnapshot)
  | .selectDomain .. => Except GoError (Option EncryptionDomain)
  | .rotateDomain .. => Except GoError Unit
  | .selectEnvelopes .. => Except GoError (List KeyEnvelope)
  | .generateID .. => String

abbrev driveInterface : Interface := ⟨DriveCall, DriveCall.Reply⟩

abbrev DriveProgram := Program driveInterface

/-- `QueryRow(...).Scan(...)` with the store's own error for no row. -/
def scanOne {α : Type} : Except GoError (Option α) → Except GoError α
  | .error err => .error (if err.is errNoRows then errNotFound else err)
  | .ok none => .error errNotFound
  | .ok (some row) => .ok row

def createFolder (f : Folder) : DriveProgram (Except GoError Unit) := .ask (.insertFolder f) .ret

def listFolders (tenantID parentFolderID : String) : DriveProgram (Except GoError (List Folder)) :=
  .ask (.selectFolders tenantID parentFolderID) .ret

def getFolder (id : String) : DriveProgram (Except GoError Folder) :=
  .ask (.selectFolder id) fun reply => .ret (scanOne reply)

def createNode (n : FileNode) : DriveProgram (Except GoError Unit) := .ask (.insertNode n) .ret

def listNodes (folderID tenantID : String) : DriveProgram (Except GoError (List FileNode)) :=
  .ask (.selectNodes folderID tenantID) .ret

def createShareGrant (grant : ShareGrant) : DriveProgram (Except GoError Unit) :=
  .ask (.insertGrant grant) .ret

def listActiveShareGrants (granteeUserID tenantID : String) :
    DriveProgram (Except GoError (List ShareGrant)) :=
  .ask (.selectGrants granteeUserID tenantID) .ret

def revokeShareGrant (id tenantID : String) : DriveProgram (Except GoError Unit) :=
  .ask (.revokeGrant id tenantID) fun
    | .error err => .ret (.error err)
    | .ok n => .ret (if n = 0 then .error errNotFound else .ok ())

def getLatestAccessContext (nodeID tenantID : String) :
    DriveProgram (Except GoError AccessContextSnapshot) :=
  .ask (.selectSnapshot nodeID tenantID) fun reply => .ret (scanOne reply)

def getDomain (id tenantID : String) : DriveProgram (Except GoError EncryptionDomain) :=
  .ask (.selectDomain id tenantID) fun reply => .ret (scanOne reply)

/-- The bodies of the answers. -/
inductive DriveBody where
  | empty
  | error (text : String)
  | tenants (tenants : List DriveTenant)
  | folders (folders : List Folder)
  | children (folder : Folder) (children : List Folder) (nodes : List FileNode)
  | created (key id : String)
  | snapshot (snapshot : AccessContextSnapshot)
  | grants (grants : List ShareGrant)
  | revoked
  | envelopes (envelopes : List KeyEnvelope)
  | rotated (domainID : String) (generation : Int)
  | domain (domain : EncryptionDomain)
  deriving DecidableEq

/-- A handler that panics has its connection aborted. -/
inductive DriveAnswer where
  | answer (status : Nat) (body : DriveBody)
  | aborted
  deriving DecidableEq

def refuse (status : Nat) (text : String) : DriveAnswer := .answer status (.error text)

inductive Verb where
  | options
  | get
  | post
  | put
  | delete
  | other
  deriving DecidableEq

structure Headers where
  xUserID : String := ""
  xTenantID : String := ""
  xDemoUser : String := ""
  xDemoTenant : String := ""

def getUserTenant (h : Headers) : String × String :=
  if h.xUserID ≠ "" ∧ h.xTenantID ≠ "" then (h.xUserID, h.xTenantID)
  else (h.xDemoUser, h.xDemoTenant)

/-- `hex.DecodeString`. -/
def hexString (text : String) : Option Bytes :=
  if text.toList.length % 2 = 0 ∧ text.toList.all fun c => (fromHexChar c).isSome then
    some (hexDecode text.toList)
  else none

structure FolderBody where
  nameEncrypted : String
  parentFolderID : String
  privacyMode : String

structure NodeBody where
  nameEncrypted : String
  mimeType : String

structure GrantBody where
  granteeUserID : String
  keyEnvelopeID : String

/-- A request to one of the routes, with what stands behind the route in its path, and the
body as the JSON decoder leaves it. -/
inductive DriveRoute where
  | tenants
  | folders (parent : String) (body : Option FolderBody)
  | folderChildren (path : String) (body : Option NodeBody)
  | node (path : String) (body : Option GrantBody)
  | domain (path : String) (prevKeyEnvelopeHex : Option String)
  | shares
  | shareRevoke (path : String)

structure DriveRequest where
  verb : Verb
  headers : Headers
  route : DriveRoute

/-- `d.gw.metaDB == nil` is answered alike by every handler. -/
def notConfigured : DriveAnswer := refuse 503 "postgres not configured"

def missingTenant : DriveAnswer := refuse 400 "missing X-Demo-Tenant header"

def notAllowed : DriveAnswer := refuse 405 "method not allowed"

def handleTenants (metaDB : Bool) (verb : Verb) : DriveProgram DriveAnswer :=
  match verb with
  | .options => .ret (.answer 200 .empty)
  | .get =>
    if metaDB then
      .ask .selectTenants fun
        | .error _ => .ret (refuse 500 "failed to list tenants")
        | .ok tenants => .ret (.answer 200 (.tenants tenants))
    else .ret notConfigured
  | _ => .ret notAllowed

/-- The parent is taken from the body as it is. -/
def handleFoldersRoot (metaDB : Bool) (verb : Verb) (tenantID parent : String)
    (body : Option FolderBody) : DriveProgram DriveAnswer :=
  if verb = .options then .ret (.answer 200 .empty)
  else if tenantID = "" then .ret missingTenant
  else if ¬ metaDB then .ret notConfigured
  else
    match verb with
    | .get => do
      match ← listFolders tenantID parent with
      | .error _ => return refuse 500 "failed to list folders"
      | .ok folders => return .answer 200 (.folders folders)
    | .post =>
      match body with
      | none => .ret (refuse 400 "invalid body")
      | some body =>
        match hexString body.nameEncrypted with
        | none => .ret (refuse 400 "invalid name_encrypted_hex")
        | some nameBytes => .ask (.generateID "folder") fun folderID => do
          match ← createFolder ⟨folderID, tenantID, body.parentFolderID, nameBytes,
              if body.privacyMode = "" then "secured" else body.privacyMode⟩ with
          | .error _ => return refuse 500 "failed to create folder"
          | .ok () => return .answer 201 (.created "folder_id" folderID)
    | _ => .ret notAllowed

/-- Both verbs look the folder up and compare its tenant. -/
def handleFolderChildren (metaDB : Bool) (verb : Verb) (tenantID path : String)
    (body : Option NodeBody) : DriveProgram DriveAnswer :=
  if verb = .options then .ret (.answer 200 .empty)
  else if tenantID = "" then .ret missingTenant
  else
    match Filesystem.components path with
    | folderID :: "children" :: _ =>
      if ¬ metaDB then .ret notConfigured
      else
        match verb with
        | .get => do
          match ← getFolder folderID with
          | .error _ => return refuse 404 "folder not found"
          | .ok folder =>
            if folder.tenantID ≠ tenantID then return refuse 404 "folder not found"
            else
              match ← listFolders folder.tenantID folderID with
              | .error _ => return refuse 500 "failed to list subfolders"
              | .ok subFolders =>
                match ← listNodes folderID tenantID with
                | .error _ => return refuse 500 "failed to list nodes"
                | .ok nodes => return .answer 200 (.children folder subFolders nodes)
        | .post =>
          match body with
          | none => .ret (refuse 400 "invalid body")
          | some body =>
            match hexString body.nameEncrypted with
            | none => .ret (refuse 400 "invalid name_encrypted_hex")
            | some nameBytes => do
              match ← getFolder folderID with
              | .error _ => return refuse 404 "folder not found"
              | .ok folder =>
                if folder.tenantID ≠ tenantID then return refuse 404 "folder not found"
                else
                  .ask (.generateID "node") fun nodeID => do
                    match ← createNode ⟨nodeID, folder.tenantID, folderID, nameBytes,
                        body.mimeType⟩ with
                    | .error _ => return refuse 500 "failed to create node"
                    | .ok () => return .answer 201 (.created "node_id" nodeID)
        | _ => .ret notAllowed
    | _ => .ret (refuse 400 "expected /v1/folders/{id}/children")

/-- A grant is made for the node of the path as it is. -/
def handleNode (metaDB : Bool) (verb : Verb) (userID tenantID path : String)
    (body : Option GrantBody) : DriveProgram DriveAnswer :=
  if verb = .options then .ret (.answer 200 .empty)
  else if tenantID = "" then .ret missingTenant
  else
    match Filesystem.components path with
    | nodeID :: action :: _ =>
      if ¬ metaDB then .ret notConfigured
      else if action = "accessContext" then
        if verb ≠ .get then .ret notAllowed
        else do
          match ← getLatestAccessContext nodeID tenantID with
          | .error _ => return refuse 404 "no access context"
          | .ok snap => return .answer 200 (.snapshot snap)
      else if action = "shares" then
        if verb ≠ .post then .ret notAllowed
        else
          match body with
          | none => .ret (refuse 400 "invalid body")
          | some body => .ask (.generateID "grant") fun grantID => do
            match ← createShareGrant ⟨grantID, tenantID, nodeID, userID, body.granteeUserID, 1, true,
                body.keyEnvelopeID⟩ with
            | .error _ => return refuse 500 "failed to create share grant"
            | .ok () => return .answer 201 (.created "grant_id" grantID)
      else .ret (refuse 400 ("unknown action: " ++ action))
    | _ => .ret (refuse 400 "expected /v1/nodes/{id}/{action}")

/-- After a rotation the error of the last read is dropped and its nil result used. -/
def handleDomain (metaDB : Bool) (verb : Verb) (tenantID path : String)
    (prevKeyEnvelopeHex : Option String) : DriveProgram DriveAnswer :=
  if verb = .options then .ret (.answer 200 .empty)
  else if tenantID = "" then .ret missingTenant
  else
    let parts := Filesystem.components path
    let domainID := parts.headD ""
    if domainID = "" then .ret (refuse 400 "missing domain_id")
    else if ¬ metaDB then .ret notConfigured
    else if parts[1]? = some "envelopes" then
      if verb ≠ .get then .ret notAllowed
      else
        .ask (.selectEnvelopes domainID tenantID) fun
          | .error _ => .ret (refuse 500 "failed to list envelopes")
          | .ok envelopes => .ret (.answer 200 (.envelopes envelopes))
    else if parts[1]? = some "generations" then
      if verb ≠ .post then .ret notAllowed
      else
        match prevKeyEnvelopeHex with
        | none => .ret (refuse 400 "invalid body")
        | some hex => .ask (.rotateDomain domainID tenantID (hexDecode hex.toList)) fun
          | .error _ => .ret (refuse 500 "failed to rotate domain")
          | .ok () => do
            match ← getDomain domainID tenantID with
            | .error _ => return .aborted
            | .ok dom => return .answer 200 (.rotated domainID dom.generation)
    else if verb ≠ .get then .ret notAllowed
    else do
      match ← getDomain domainID tenantID with
      | .error _ => return refuse 404 "domain not found"
      | .ok dom => return .answer 200 (.domain dom)

def handleSharesRoot (metaDB : Bool) (verb : Verb) (userID tenantID : String) :
    DriveProgram DriveAnswer :=
  if verb = .options then .ret (.answer 200 .empty)
  else if verb ≠ .get then .ret notAllowed
  else if userID = "" then .ret (refuse 400 "missing X-Demo-User header")
  else if tenantID = "" then .ret missingTenant
  else if ¬ metaDB then .ret notConfigured
  else do
    match ← listActiveShareGrants userID tenantID with
    | .error _ => return refuse 500 "failed to list grants"
    | .ok grants => return .answer 200 (.grants grants)

def handleShareRevoke (metaDB : Bool) (verb : Verb) (tenantID grantID : String) :
    DriveProgram DriveAnswer :=
  if verb = .options then .ret (.answer 200 .empty)
  else if tenantID = "" then .ret missingTenant
  else if grantID = "" then .ret (refuse 400 "missing grant_id")
  else if verb ≠ .delete then .ret notAllowed
  else if ¬ metaDB then .ret notConfigured
  else do
    match ← revokeShareGrant grantID tenantID with
    | .error _ => return refuse 404 "grant not found or already revoked"
    | .ok () => return .answer 200 .revoked

def DriveRequest.handle (metaDB : Bool) (r : DriveRequest) : DriveProgram DriveAnswer :=
  let (userID, tenantID) := getUserTenant r.headers
  match r.route with
  | .tenants => handleTenants metaDB r.verb
  | .folders parent body => handleFoldersRoot metaDB r.verb tenantID parent body
  | .folderChildren path body => handleFolderChildren metaDB r.verb tenantID path body
  | .node path body => handleNode metaDB r.verb userID tenantID path body
  | .domain path hex => handleDomain metaDB r.verb tenantID path hex
  | .shares => handleSharesRoot metaDB r.verb userID tenantID
  | .shareRevoke path => handleShareRevoke metaDB r.verb tenantID path

end KDrive.Server
