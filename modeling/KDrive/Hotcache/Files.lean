import KDrive.Go.Json
import KDrive.Hotcache.Regions
import KDrive.Interaction.Throughout
import Mathlib.Data.Set.Finite.Basic

/-! The files below the root of a disk cache: what a path is made of, what a file can
hold, and the requests through which the cache acts on them. What the Go runtime leaves
open (a random file name, the pieces a copy is made in, the order of a map, the order of
equal elements in a sort) is asked for as well, so that a reply stands for any choice. -/
namespace KDrive.Hotcache
open Go Interaction

structure DiskEntry where
  blobID : String
  sizeBytes : Int
  hash : Bytes := []
  storedAt : Time := 0
  lastAccess : Time := 0
  expiresAt : Time := 0
  pinned : Bool := false
  nonEvictable : Bool := false
  hits : Nat := 0
  deriving DecidableEq

instance : Resident DiskEntry where
  blobID := DiskEntry.blobID
  size := DiskEntry.sizeBytes
  pinned := DiskEntry.pinned
  nonEvictable := DiskEntry.nonEvictable

structure MetaFile where
  blobID : String
  sizeBytes : Int
  hash : Bytes
  storedAt : Time
  expiresAt : Time
  pinned : Bool
  nonEvictable : Bool
  hitCount : Nat
  deriving DecidableEq

/-- A file holds bytes, or the JSON text of a `metaFile`, which is kept as the value it
is the text of. -/
inductive Content where
  | bytes (data : Bytes)
  | json (file : MetaFile)
  deriving DecidableEq

/-- What a reader of the file gets; no body file holds JSON. -/
def Content.raw : Content → Bytes
  | .bytes data => data
  | .json _ => []

/-- A `Write` at the end of a file. -/
def Content.append : Content → Content → Content
  | .bytes first, .bytes second => .bytes (first ++ second)
  | _, .json file => .json file
  | .json file, .bytes _ => .json file

/-- What its JSON text says: the hash may be any bytes, and the blob ID is UTF-8. -/
def MetaFile.text (file : MetaFile) : MetaFile := { file with hash := jsonText file.hash }

/-- `json.Marshal`. -/
def MetaFile.marshal (file : MetaFile) : Except GoError Content :=
  if dated file.storedAt ∧ dated file.expiresAt then .ok (.json file.text)
  else .error (.wrap "json: error calling MarshalJSON for type %s: %w" [.str "time.Time"]
    (.new "Time.MarshalJSON: year outside of range [0,9999]"))

theorem MetaFile.marshal_ok {file : MetaFile} (ok : file.marshal = .ok content) :
    content = .json file.text := by
  unfold marshal at ok
  split at ok
  · cases ok
    rfl
  · contradiction

/-- `json.Unmarshal`. -/
def MetaFile.unmarshal : Content → Except GoError MetaFile
  | .json file => .ok file
  | .bytes _ => .error (.new "unexpected end of JSON input")

/-- The name of a directory below the root, as bytes: it may end inside a character. -/
abbrev Shard := List UInt8

structure Path where
  shard : Shard
  name : String
  deriving DecidableEq

def shardOf (blobID : String) : Shard :=
  if (utf8 blobID).length < 2 then utf8 "_" else (utf8 blobID).take 2

def bodyPath (blobID : String) : Path := ⟨shardOf blobID, blobID ++ ".bin"⟩

def metaPath (blobID : String) : Path := ⟨shardOf blobID, blobID ++ ".meta.json"⟩

/-- `path + ".tmp"`. -/
def Path.tmp (path : Path) : Path := { path with name := path.name ++ ".tmp" }

/-- A name that `os.CreateTemp` tries for the pattern `blobID + ".*.tmp"`. -/
def tempPath (shard : Shard) (blobID : String) (random : Nat) : Path :=
  ⟨shard, blobID ++ "." ++ toString random ++ ".tmp"⟩

def hasSuffix (s suf : String) : Bool := suf.toList.isSuffixOf s.toList

/-- `s[:len(s)-len(suf)]`. -/
def stripSuffix (s suf : String) : String :=
  String.ofList (s.toList.take (s.toList.length - suf.toList.length))

/-- What `readShards` takes a file for, by its name alone. -/
inductive FileKind where
  | body (blobID : String)
  | metadata (blobID : String)
  | temp
  | other
  deriving DecidableEq

def classify (name : String) : FileKind :=
  if hasSuffix name ".bin" then .body (stripSuffix name ".bin")
  else if hasSuffix name ".meta.json" then .metadata (stripSuffix name ".meta.json")
  else if hasSuffix name ".tmp" then .temp
  else .other

inductive FileRequest where
  | mkdirRoot
  | mkdirAll (shard : Shard)
  | createTemp (shard : Shard) (blobID : String)
  | create (path : Path)
  | write (path : Path) (content : Content)
  | close (path : Path)
  | rename (source target : Path)
  | remove (path : Path)
  | openFile (path : Path)
  | readRoot
  | readShard (shard : Shard)
  | readFile (path : Path)
  | pieces (data : Bytes)
  | range (keys : List String)
  | sortByStored (entries : List DiskEntry)

/-- The result of `os.Remove` is never looked at. -/
def FileRequest.Reply : FileRequest → Type
  | .mkdirRoot | .mkdirAll _ | .create _ | .write .. | .close _ | .rename .. => Option GoError
  | .createTemp .. => Except GoError Path
  | .remove _ => Unit
  | .openFile _ | .readFile _ => Except GoError Content
  | .readRoot => Except GoError (List Shard)
  | .readShard _ => Except GoError (List String)
  | .pieces _ => List Bytes
  | .range _ => List String
  | .sortByStored _ => List DiskEntry

def disk : Interface := ⟨FileRequest, FileRequest.Reply⟩

structure Files where
  dirs : List Shard := []
  files : AList (fun _ : Path => Content) := ∅

namespace Files

def look (fs : Files) (path : Path) : Option Content := fs.files.lookup path

def set (fs : Files) (path : Path) (content : Content) : Files :=
  { fs with files := fs.files.insert path content }

def unset (fs : Files) (path : Path) : Files := { fs with files := fs.files.erase path }

def mkdir (fs : Files) (shard : Shard) : Files :=
  { fs with dirs := if shard ∈ fs.dirs then fs.dirs else fs.dirs ++ [shard] }

/-- The names in a directory. -/
def names (fs : Files) (shard : Shard) : List String :=
  (fs.files.keys.filter fun path => path.shard = shard).map Path.name

@[simp] theorem look_set (fs : Files) (path other : Path) (content : Content) :
    (fs.set path content).look other = if other = path then some content else fs.look other := by
  split
  · rename_i same
    rw [same]
    exact AList.lookup_insert _
  · rename_i different
    exact AList.lookup_insert_ne different

@[simp] theorem look_unset (fs : Files) (path other : Path) :
    (fs.unset path).look other = if other = path then none else fs.look other := by
  split
  · rename_i same
    rw [same]
    exact AList.lookup_erase _ _
  · rename_i different
    exact AList.lookup_erase_ne different

theorem mem_mkdir (fs : Files) (shard other : Shard) :
    other ∈ (fs.mkdir shard).dirs ↔ other = shard ∨ other ∈ fs.dirs := by
  simp only [mkdir]
  split
  · rename_i present
    constructor
    · exact .inr
    · rintro (rfl | member)
      · exact present
      · exact member
  · simp [or_comm]

theorem mem_names (fs : Files) (shard : Shard) (name : String) :
    name ∈ fs.names shard ↔ (fs.look ⟨shard, name⟩).isSome := by
  rw [look, AList.lookup_isSome, AList.mem_keys]
  simp only [names, List.mem_map, List.mem_filter, decide_eq_true_eq]
  constructor
  · rintro ⟨path, ⟨member, rfl⟩, rfl⟩
    exact member
  · intro member
    exact ⟨⟨shard, name⟩, ⟨member, rfl⟩, rfl⟩

theorem names_nodup (fs : Files) (shard : Shard) : (fs.names shard).Nodup := by
  refine List.Nodup.map_on ?_ (fs.files.keys_nodup.filter _)
  intro first inFirst second inSecond same
  simp only [List.mem_filter, decide_eq_true_eq] at inFirst inSecond
  cases first
  cases second
  simp_all

end Files

def errNotExist : GoError := .new "file does not exist"

/-- A filesystem on which nothing fails: each request is one step that takes effect as
a whole. -/
def Calm (fs : Files) : (q : FileRequest) → q.Reply → Files → Prop
  | .mkdirRoot, reply, fs' => reply = none ∧ fs' = fs
  | .mkdirAll shard, reply, fs' => reply = none ∧ fs' = fs.mkdir shard
  | .createTemp shard blobID, reply, fs' => ∃ random, fs.look (tempPath shard blobID random) = none ∧
      reply = .ok (tempPath shard blobID random) ∧
      fs' = fs.set (tempPath shard blobID random) (.bytes [])
  | .create path, reply, fs' => reply = none ∧ fs' = fs.set path (.bytes [])
  | .write path content, reply, fs' =>
      reply = none ∧ fs' = fs.set path (((fs.look path).getD (.bytes [])).append content)
  | .close _, reply, fs' => reply = none ∧ fs' = fs
  | .rename source target, reply, fs' =>
      match fs.look source with
      | some content => reply = none ∧ fs' = (fs.unset source).set target content
      | none => reply = some errNotExist ∧ fs' = fs
  | .remove path, _, fs' => fs' = fs.unset path
  | .openFile path, reply, fs' | .readFile path, reply, fs' =>
      reply = (fs.look path).elim (.error errNotExist) .ok ∧ fs' = fs
  | .readRoot, reply, fs' => reply = .ok fs.dirs ∧ fs' = fs
  | .readShard shard, reply, fs' => reply = .ok (fs.names shard) ∧ fs' = fs
  | .pieces data, reply, fs' => reply.flatten = data ∧ fs' = fs
  | .range keys, reply, fs' => List.Perm reply keys ∧ fs' = fs
  | .sortByStored entries, reply, fs' => (List.Perm reply entries ∧
      List.Pairwise (fun first second => first.storedAt ≤ second.storedAt) reply) ∧ fs' = fs

def calm : Handler disk Files := Calm

section Names

theorem hasSuffix_append (s suf : String) : hasSuffix (s ++ suf) suf = true := by
  simp [hasSuffix, String.toList_append]

theorem stripSuffix_append (s suf : String) : stripSuffix (s ++ suf) suf = s := by
  simp [stripSuffix, String.toList_append, String.ofList_toList]

/-- Of two suffixes of a name, one is a suffix of the other. -/
theorem hasSuffix_apart (s : String) {suf other : String} (left : ¬ other.toList <:+ suf.toList)
    (right : ¬ suf.toList <:+ other.toList) : hasSuffix (s ++ suf) other = false := by
  by_contra found
  have inside : other.toList <:+ s.toList ++ suf.toList := by
    simpa [hasSuffix, String.toList_append] using found
  have own : suf.toList <:+ s.toList ++ suf.toList := List.suffix_append _ _
  rcases Nat.le_total other.toList.length suf.toList.length with shorter | longer
  · exact left (List.suffix_of_suffix_length_le inside own shorter)
  · exact right (List.suffix_of_suffix_length_le own inside longer)

theorem classify_body (blobID : String) : classify (blobID ++ ".bin") = .body blobID := by
  simp only [classify, hasSuffix_append, if_true, stripSuffix_append]

theorem classify_metadata (blobID : String) :
    classify (blobID ++ ".meta.json") = .metadata blobID := by
  have body : hasSuffix (blobID ++ ".meta.json") ".bin" = false :=
    hasSuffix_apart blobID (by decide) (by decide)
  simp [classify, body, hasSuffix_append, stripSuffix_append]

theorem classify_temp (name : String) : classify (name ++ ".tmp") = .temp := by
  have body : hasSuffix (name ++ ".tmp") ".bin" = false :=
    hasSuffix_apart name (by decide) (by decide)
  have metadata : hasSuffix (name ++ ".tmp") ".meta.json" = false :=
    hasSuffix_apart name (by decide) (by decide)
  simp [classify, body, metadata, hasSuffix_append]

theorem stripSuffix_restores {s suf : String} (ends : hasSuffix s suf = true) :
    stripSuffix s suf ++ suf = s := by
  obtain ⟨stem, split⟩ : suf.toList <:+ s.toList := by simpa [hasSuffix] using ends
  apply String.toList_inj.mp
  simp [stripSuffix, String.toList_append, ← split]

theorem eq_of_classify_body {name id : String} (kind : classify name = .body id) :
    name = id ++ ".bin" := by
  unfold classify at kind
  split at kind
  · rename_i ends
    cases kind
    exact (stripSuffix_restores ends).symm
  · split at kind
    · contradiction
    · split at kind <;> contradiction

theorem eq_of_classify_metadata {name id : String} (kind : classify name = .metadata id) :
    name = id ++ ".meta.json" := by
  unfold classify at kind
  split at kind
  · contradiction
  · split at kind
    · rename_i ends
      cases kind
      exact (stripSuffix_restores ends).symm
    · split at kind <;> contradiction

def Path.kind (path : Path) : FileKind := classify path.name

@[simp] theorem kind_bodyPath (blobID : String) : (bodyPath blobID).kind = .body blobID :=
  classify_body blobID

@[simp] theorem kind_metaPath (blobID : String) : (metaPath blobID).kind = .metadata blobID :=
  classify_metadata blobID

@[simp] theorem kind_tmp (path : Path) : path.tmp.kind = .temp := classify_temp path.name

@[simp] theorem kind_tempPath (shard : Shard) (blobID : String) (random : Nat) :
    (tempPath shard blobID random).kind = .temp := classify_temp _

/-- Paths of different kinds differ. -/
theorem path_ne {first second : Path} (kinds : first.kind ≠ second.kind) : first ≠ second :=
  fun same => kinds (congrArg Path.kind same)

@[simp] theorem bodyPath_ne_metaPath (first second : String) : bodyPath first ≠ metaPath second :=
  path_ne (by simp)

@[simp] theorem metaPath_ne_bodyPath (first second : String) : metaPath first ≠ bodyPath second :=
  path_ne (by simp)

@[simp] theorem bodyPath_inj {first second : String} :
    bodyPath first = bodyPath second ↔ first = second := by
  constructor
  · intro same
    have kinds := congrArg Path.kind same
    simpa using kinds
  · rintro rfl
    rfl

@[simp] theorem metaPath_inj {first second : String} :
    metaPath first = metaPath second ↔ first = second := by
  constructor
  · intro same
    have kinds := congrArg Path.kind same
    simpa using kinds
  · rintro rfl
    rfl

theorem tempPath_injective (shard : Shard) (blobID : String) :
    Function.Injective (tempPath shard blobID) := by
  intro first second same
  have names := congrArg (fun path => path.name.toList) same
  simp only [tempPath, String.toList_append, List.append_cancel_right_eq,
    List.append_cancel_left_eq] at names
  have digits : Nat.toDigits 10 first = Nat.toDigits 10 second := by
    rw [← Nat.toList_repr, ← Nat.toList_repr]
    exact names
  rw [← Nat.ofDigitChars_ten_toDigits (n := first), digits, Nat.ofDigitChars_ten_toDigits]

/-- The calm filesystem with its choices made: temporary files are numbered, a body is
copied in one piece, and maps and sorts keep the order they are given. -/
def quiet : Executor disk Files := fun fs q =>
  match q with
  | .mkdirRoot => some (none, fs)
  | .mkdirAll shard => some (none, fs.mkdir shard)
  | .createTemp shard blobID =>
    (((List.range (fs.files.keys.length + 1)).map (tempPath shard blobID)).find? fun path =>
      (fs.look path).isNone).map fun path => (.ok path, fs.set path (.bytes []))
  | .create path => some (none, fs.set path (.bytes []))
  | .write path content =>
    some (none, fs.set path (((fs.look path).getD (.bytes [])).append content))
  | .close _ => some (none, fs)
  | .rename source target =>
    match fs.look source with
    | some content => some (none, (fs.unset source).set target content)
    | none => some (some errNotExist, fs)
  | .remove path => some ((), fs.unset path)
  | .openFile path | .readFile path => some ((fs.look path).elim (.error errNotExist) .ok, fs)
  | .readRoot => some (.ok fs.dirs, fs)
  | .readShard shard => some (.ok (fs.names shard), fs)
  | .pieces data => some ([data], fs)
  | .range keys => some (keys, fs)
  | .sortByStored entries =>
    some (entries.insertionSort fun first second => first.storedAt ≤ second.storedAt, fs)

theorem quiet_calm {fs fs' : Files} {q : FileRequest} {reply : q.Reply}
    (step : quiet fs q = some (reply, fs')) : calm fs q reply fs' := by
  cases q with
  | createTemp shard blobID =>
    obtain ⟨path, found, same⟩ := Option.map_eq_some_iff.mp step
    obtain ⟨random, _, rfl⟩ := List.mem_map.mp (List.mem_of_find?_eq_some found)
    have free := List.find?_some found
    cases same
    exact ⟨random, by simpa using free, rfl, rfl⟩
  | rename source target =>
    simp only [calm, Calm]
    simp only [quiet] at step
    split at step <;> cases step <;> exact ⟨rfl, rfl⟩
  | remove path =>
    cases step
    rfl
  | pieces data =>
    cases step
    exact ⟨List.flatten_singleton, rfl⟩
  | range keys =>
    cases step
    exact ⟨.refl _, rfl⟩
  | sortByStored entries =>
    cases step
    exact ⟨⟨List.perm_insertionSort _ _, List.pairwise_insertionSort _ _⟩, rfl⟩
  | _ =>
    cases step
    exact ⟨rfl, rfl⟩

/-- A filesystem on which nothing fails answers every request. -/
theorem calm_answers (fs : Files) (q : FileRequest) : ∃ reply fs', calm fs q reply fs' := by
  cases q with
  | createTemp shard blobID =>
    obtain ⟨_, ⟨random, rfl⟩, fresh⟩ :=
      (Set.infinite_range_of_injective (tempPath_injective shard blobID)).exists_notMem_finset
        fs.files.keys.toFinset
    refine ⟨_, _, random, ?_, rfl, rfl⟩
    rw [List.mem_toFinset, ← AList.mem_keys] at fresh
    exact AList.lookup_eq_none.mpr fresh
  | rename source target =>
    simp only [calm, Calm]
    split <;> exact ⟨_, _, rfl, rfl⟩
  | _ => exact ⟨_, _, quiet_calm rfl⟩

end Names

end KDrive.Hotcache
