import Arco.Core.Environment
import Arco.Data.Text

/-! Storage that is confined to one workspace.

Every path is put behind the tenant and the workspace before it reaches the backend. An id holds no
slash, so that no path of one workspace is a path of another, and a listing is cut at the slash that
ends its prefix.
-/

namespace Arco.Core

open List Text Storage

inductive StorageError where
  | invalidId (message : String)
  | invalidInput (message : String)
  | storage (message : String)

structure ObjectMeta where
  path : String
  size : Nat
  version : String
  lastModified : Option Timestamp
  etag : Option String

/-- A backend for which keys are just strings: a write or a deletion is about one key, and a listing
gives the keys that start with a text. -/
structure StorageBackend (σ β : Type) where
  get : String → σ → Except StorageError β × σ
  put : String → β → WritePrecondition → σ → Except StorageError WriteResult × σ
  delete : String → σ → Except StorageError Unit × σ
  head : String → σ → Except StorageError (Option ObjectMeta) × σ
  list : String → σ → Except StorageError (List ObjectMeta) × σ
  Holds : σ → String → Prop
  holds_put : ∀ key data precondition s other, Holds (put key data precondition s).2 other →
    other = key ∨ Holds s other
  holds_delete : ∀ key s other, Holds (delete key s).2 other → Holds s other
  mem_list : ∀ start s metas, (list start s).1 = .ok metas → ∀ key,
    (∃ m ∈ metas, m.path = key) ↔ Holds s key ∧ start.toList <+: key.toList

/-- What a backend is asked for: the object at a key, or those whose keys start with a text. -/
inductive Request where
  | object (key : String)
  | listing (start : String)

def Request.Covers : Request → String → Prop
  | .object key, other => other = key
  | .listing start, other => start.toList <+: other.toList

def recorded {σ α : Type} (request : Request) (operation : σ → α × σ) (s : σ × List Request) : α × σ × List Request :=
  ((operation s.1).1, (operation s.1).2, s.2 ++ [request])

/-- The backend, with a record of what it was asked for. -/
def StorageBackend.recording {σ β : Type} (backend : StorageBackend σ β) :
    StorageBackend (σ × List Request) β where
  get key := recorded (.object key) (backend.get key)
  put key data precondition := recorded (.object key) (backend.put key data precondition)
  delete key := recorded (.object key) (backend.delete key)
  head key := recorded (.object key) (backend.head key)
  list start := recorded (.listing start) (backend.list start)
  Holds s := backend.Holds s.1
  holds_put key data precondition s := backend.holds_put key data precondition s.1
  holds_delete key s := backend.holds_delete key s.1
  mem_list start s := backend.mem_list start s.1

def scopedListBoundary (start : String) : String :=
  if start = "" ∨ start.toList.getLast? = some '/' then start else s!"{start}/"

def validateId (id field : String) : Except StorageError Unit :=
  let chars := id.toList
  if id = "" then .error (.invalidId s!"{field} cannot be empty")
  else if '/' ∈ chars ∨ '\\' ∈ chars then .error (.invalidId s!"{field} cannot contain path separators")
  else if '\n' ∈ chars ∨ '\r' ∈ chars ∨ '\x00' ∈ chars then
    .error (.invalidId s!"{field} cannot contain control characters")
  else if chars.all fun c => c.isLower || c.isDigit || c = '-' || c = '_' then .ok ()
  else .error (.invalidId s!"{field} contains invalid characters (allowed: a-z, 0-9, '-', '_')")

def validatePath (path : String) : Except StorageError Unit :=
  let chars := path.toList
  if chars.head? = some '/' ∨ chars.head? = some '\\' then
    .error (.invalidInput s!"absolute paths not allowed: {path}")
  else if '\\' ∈ chars then .error (.invalidInput s!"backslashes not allowed in paths: {path}")
  else if '%' ∈ chars then .error (.invalidInput s!"percent-encoding not allowed in paths: {path}")
  else if '\n' ∈ chars ∨ '\r' ∈ chars ∨ '\x00' ∈ chars then
    .error (.invalidInput s!"control characters not allowed in paths: {path}")
  else if "." ∈ splitString '/' path ∨ ".." ∈ splitString '/' path then
    .error (.invalidInput s!"path traversal not allowed: {path}")
  else .ok ()

/-- A scope that `new` has made. -/
structure ScopedStorage where
  tenantId : String
  workspaceId : String
  tenantValid : validateId tenantId "tenant_id" = .ok ()
  workspaceValid : validateId workspaceId "workspace_id" = .ok ()

inductive ScopedCall (β : Type) where
  | getRaw (path : String)
  | putRaw (path : String) (data : β) (precondition : WritePrecondition)
  | delete (path : String)
  | headRaw (path : String)
  | list (start : String)

def ScopedCall.path {β : Type} : ScopedCall β → String
  | .getRaw path | .putRaw path _ _ | .delete path | .headRaw path | .list path => path

/-- What a call is to ask for, at a key. -/
def ScopedCall.request {β : Type} (key : String) : ScopedCall β → Request
  | .getRaw _ | .putRaw _ _ _ | .delete _ | .headRaw _ => .object key
  | .list _ => .listing key

namespace ScopedStorage

def new (tenantId workspaceId : String) : Except StorageError ScopedStorage :=
  match tenantValid : validateId tenantId "tenant_id", workspaceValid : validateId workspaceId "workspace_id" with
  | .error error, _ | .ok _, .error error => .error error
  | .ok (), .ok () => .ok { tenantId, workspaceId, tenantValid, workspaceValid }

variable {σ β : Type} (scope : ScopedStorage) (backend : StorageBackend σ β)

def scopePrefix : String := s!"tenant={scope.tenantId}/workspace={scope.workspaceId}"

def scopedPath (path : String) : String := s!"{scope.scopePrefix}/{path}"

/-- An operation of the backend at an accepted path. -/
def checked {α : Type} (path : String) (operation : String → σ → Except StorageError α × σ) (s : σ) :
    Except StorageError α × σ :=
  match validatePath path with
  | .error error => (.error error, s)
  | .ok () => operation (scope.scopedPath path) s

def getRaw (path : String) : σ → Except StorageError β × σ := scope.checked path backend.get

def putRaw (path : String) (data : β) (precondition : WritePrecondition) : σ → Except StorageError WriteResult × σ :=
  scope.checked path fun key => backend.put key data precondition

def delete (path : String) : σ → Except StorageError Unit × σ := scope.checked path backend.delete

def headRaw (path : String) : σ → Except StorageError (Option ObjectMeta) × σ := scope.checked path backend.head

/-- The objects of a listing that are at the prefix or under it, with paths relative to the scope. -/
def relative (start : String) (metas : List ObjectMeta) : List ObjectMeta :=
  (metas.filter fun m => start = "" ∨ m.path = scope.scopedPath start ∨
    (scopedListBoundary (scope.scopedPath start)).toList <+: m.path.toList).filterMap fun m =>
      (stripPrefix s!"{scope.scopePrefix}/" m.path).map fun path => { m with path }

def listMeta (start : String) (s : σ) : Except StorageError (List ObjectMeta) × σ :=
  (scope.checked start backend.list s).map (·.map (scope.relative start)) id

def list (start : String) (s : σ) : Except StorageError (List String) × σ :=
  (scope.listMeta backend start s).map (·.map (map (·.path))) id

/-- What a call asks the backend for. -/
def requests (s : σ) : ScopedCall β → List Request
  | .getRaw path => (scope.getRaw backend.recording path (s, [])).2.2
  | .putRaw path data precondition => (scope.putRaw backend.recording path data precondition (s, [])).2.2
  | .delete path => (scope.delete backend.recording path (s, [])).2.2
  | .headRaw path => (scope.headRaw backend.recording path (s, [])).2.2
  | .list start => (scope.list backend.recording start (s, [])).2.2

/-- The keys that a call reaches. -/
def Touches (s : σ) (key : String) (call : ScopedCall β) : Prop :=
  ∃ request ∈ scope.requests backend s call, request.Covers key

/-- The states of a backend whose workspaces are written through their scopes only. -/
inductive Reachable : σ → Prop where
  | initial {s : σ} (empty : ∀ key, ¬ backend.Holds s key) : Reachable s
  | put {s : σ} (reached : Reachable s) (scope : ScopedStorage) (path : String) (data : β)
      (precondition : WritePrecondition) : Reachable (scope.putRaw backend path data precondition s).2
  | delete {s : σ} (reached : Reachable s) (scope : ScopedStorage) (path : String) :
      Reachable (scope.delete backend path s).2
  | other {s s' : σ} (reached : Reachable s) (outside : ∀ key, backend.Holds s' key → backend.Holds s key ∨
      ∀ (scope : ScopedStorage) path, key ≠ scope.scopedPath path) : Reachable s'

/-- At a prefix, or under it from a slash on. -/
def Under (start path : String) : Prop :=
  start = "" ∨ path = start ∨ start.toList ++ ['/'] <+: path.toList ∨
    start.toList.getLast? = some '/' ∧ start.toList <+: path.toList

variable {scope backend} {scope' : ScopedStorage} {s : σ} {path path' start : String}

theorem toList_scopedPath : (scope.scopedPath path).toList = scope.scopePrefix.toList ++ '/' :: path.toList := by
  simp [scopedPath, toString]

theorem slash_not_mem_of_validateId {id field : String} (valid : validateId id field = .ok ()) : '/' ∉ id.toList := by
  intro slash
  unfold validateId at valid
  split at valid
  · cases valid
  · rw [if_pos (.inl slash)] at valid
    cases valid

/-- A key tells the scope and the path that it was made of. -/
theorem scopedPath_injective (same : scope.scopedPath path = scope'.scopedPath path') :
    (scope.tenantId, scope.workspaceId) = (scope'.tenantId, scope'.workspaceId) ∧ path = path' := by
  have free (scope : ScopedStorage) := slash_not_mem_of_validateId scope.tenantValid
  have free' (scope : ScopedStorage) := slash_not_mem_of_validateId scope.workspaceValid
  have chars : ("tenant=".toList ++ scope.tenantId.toList) ++ '/' :: (("workspace=".toList ++
      scope.workspaceId.toList) ++ '/' :: path.toList) = ("tenant=".toList ++ scope'.tenantId.toList) ++ '/' ::
      (("workspace=".toList ++ scope'.workspaceId.toList) ++ '/' :: path'.toList) := by
    simpa [scopedPath, scopePrefix, toString] using congrArg String.toList same
  obtain ⟨sameTenant, rest⟩ := append_cons_injective (by simpa using free scope) (by simpa using free scope') chars
  obtain ⟨sameWorkspace, samePath⟩ :=
    append_cons_injective (by simpa using free' scope) (by simpa using free' scope') rest
  simpa [← String.toList_inj, samePath] using And.intro sameTenant sameWorkspace

theorem new_eq_ok {tenantId workspaceId : String} (isNew : new tenantId workspaceId = .ok scope) :
    scope.tenantId = tenantId ∧ scope.workspaceId = workspaceId := by
  unfold new at isNew
  split at isNew
  · cases isNew
  · cases isNew
  · cases isNew
    exact ⟨rfl, rfl⟩

theorem checked_recorded {α : Type} {request : String → Request} {operation : String → σ → Except StorageError α × σ} :
    (scope.checked path (fun key => recorded (request key) (operation key)) (s, [])).2.2 =
      if (validatePath path).isOk then [request (scope.scopedPath path)] else [] := by
  unfold checked
  split <;> simp [recorded, Except.isOk, Except.toBool, *]

/-- A call asks the backend once, at the scoped path, and not at all if the path is refused. -/
theorem requests_eq (call : ScopedCall β) : scope.requests backend s call =
    if (validatePath call.path).isOk then [call.request (scope.scopedPath call.path)] else [] := by
  cases call with
  | getRaw path | putRaw path data precondition | delete path | headRaw path | list start => exact checked_recorded

theorem Touches.isPath {key : String} {call : ScopedCall β} (touches : scope.Touches backend s key call) :
    ∃ path, key = scope.scopedPath path := by
  obtain ⟨request, sent, covers⟩ := touches
  rw [requests_eq] at sent
  split at sent
  · rw [mem_singleton.mp sent] at covers
    cases call with
    | getRaw path | putRaw path data precondition | delete path | headRaw path => exact ⟨path, covers⟩
    | list start =>
      obtain ⟨rest, isKey⟩ := covers
      refine ⟨String.ofList (start.toList ++ rest), ?_⟩
      rw [← String.toList_inj, ← isKey, toList_scopedPath, toList_scopedPath]
      simp [ScopedCall.path]
  · cases sent

theorem scopedPath_prefix_iff : (scope.scopedPath start).toList <+: (scope.scopedPath path).toList ↔
    start.toList <+: path.toList := by
  rw [toList_scopedPath, toList_scopedPath, prefix_append_right_inj, prefix_cons_inj]

theorem scopedListBoundary_prefix_iff (filled : start ≠ "") :
    (scopedListBoundary (scope.scopedPath start)).toList <+: (scope.scopedPath path).toList ↔
      start.toList ++ ['/'] <+: path.toList ∨ start.toList.getLast? = some '/' ∧ start.toList <+: path.toList := by
  have last : (scope.scopedPath start).toList.getLast? = start.toList.getLast? := by
    rw [toList_scopedPath, getLast?_append_of_ne_nil _ (by simp), getLast?_cons_of_ne_nil (by simpa using filled)]
  have some_ : scope.scopedPath start ≠ "" := fun empty => by
    simpa [toList_scopedPath] using congrArg String.toList empty
  rw [scopedListBoundary, last]
  by_cases slash : start.toList.getLast? = some '/'
  · rw [if_pos (.inr slash), scopedPath_prefix_iff]
    exact ⟨fun below => .inr ⟨slash, below⟩, fun under => under.elim (prefix_append _ _).trans And.right⟩
  · rw [if_neg (by simp [some_, slash])]
    simp [toString, toList_scopedPath, slash]

theorem Under.starts (under : Under start path) : start.toList <+: path.toList := by
  rcases under with rfl | rfl | below | ⟨_, below⟩
  · exact nil_prefix
  · exact prefix_rfl
  · exact (prefix_append _ _).trans below
  · exact below

theorem mem_relative {metas : List ObjectMeta} : path ∈ (scope.relative start metas).map (·.path) ↔
    (∃ m ∈ metas, m.path = scope.scopedPath path) ∧ Under start path := by
  have stripped : ∀ key, stripPrefix s!"{scope.scopePrefix}/" key = some path ↔ key = scope.scopedPath path := by
    simp [stripPrefix_eq_some, ← String.toList_inj, toList_scopedPath, toString]
  have kept : (start = "" ∨ scope.scopedPath path = scope.scopedPath start ∨
      (scopedListBoundary (scope.scopedPath start)).toList <+: (scope.scopedPath path).toList) ↔ Under start path := by
    refine or_congr_right' fun filled => or_congr ?_ (scopedListBoundary_prefix_iff filled)
    simp [← String.toList_inj, toList_scopedPath]
  simp only [relative, mem_map, mem_filterMap, mem_filter, Option.map_eq_some_iff, decide_eq_true_eq]
  constructor
  · rintro ⟨_, ⟨m, ⟨member, keeps⟩, _, strips, rfl⟩, rfl⟩
    have isKey := (stripped m.path).mp strips
    exact ⟨⟨m, member, isKey⟩, kept.mp (isKey ▸ keeps)⟩
  · rintro ⟨⟨m, member, isKey⟩, under⟩
    exact ⟨_, ⟨m, ⟨member, isKey ▸ kept.mpr under⟩, path, (stripped _).mpr isKey, rfl⟩, rfl⟩

/-- What is held under a scope was put there through the scope, under a path that is accepted. -/
theorem Reachable.accepted (reached : Reachable backend s) (held : backend.Holds s (scope.scopedPath path)) :
    validatePath path = .ok () := by
  induction reached with
  | initial empty => exact absurd held (empty _)
  | put _ scope' path' data precondition ih =>
    unfold putRaw checked at held
    split at held
    · exact ih held
    · rcases backend.holds_put _ _ _ _ _ held with same | before
      · rwa [(scopedPath_injective same).2]
      · exact ih before
  | delete _ scope' path' ih =>
    unfold ScopedStorage.delete checked at held
    split at held
    · exact ih held
    · exact ih (backend.holds_delete _ _ _ held)
  | other _ outside ih => exact (outside _ held).elim ih fun never => absurd rfl (never scope path)

end ScopedStorage

end Arco.Core
