import BeShare.Reflect.Matching
import BeShare.Reflect.Server
import BeShare.Reflect.View

/-!
The users and files that the BeShare client knows, as it follows the `PR_RESULT_DATAITEMS` messages of the server. The
windows, the log and the downloads that wait for a user are left out, and so are the texts as they are displayed.
-/

namespace BeShare.Client.ServerUpdates

open BeShare.Muscle.Reflect (Str Path DataItems Table PathMatcher Server ServerEvent)

def NO_FILE_LIMIT : UInt32 :=
  999999

def STR_ANONYMOUS : Str :=
  "[anonymous]".toList

/-- The accessors of messages that the client uses. -/
structure Reader (Msg : Type) where
  findString : Msg → String → Option Str
  findBool : Msg → String → Option Bool
  findInt32 : Msg → String → Option Int32
  findInt64 : Msg → String → Option UInt64
  inflateMessage : Msg → Option Msg

/-- A `Message` has one field for each path, and a field has a value at least. -/
structure Results (Msg : Type) extends DataItems Msg where
  nodup : (items.map Prod.fst).Nodup
  nonempty : ∀ item ∈ items, item.2 ≠ []

structure RemoteUserItem (Msg : Type) where
  handle : Str
  hostName : Str
  port : Int32
  isBot : Bool
  installID : UInt64
  client : Str
  supportsPartialHash : Bool
  status : Str
  firewalled : Bool
  curUploads : UInt32
  maxUploads : UInt32
  bandwidthLabel : Str
  bandwidth : UInt32
  numSharedFiles : Int32
  files : Str → Option Msg

variable {Msg : Type}

namespace RemoteUserItem

def new (unknown : Str) : RemoteUserItem Msg :=
  ⟨STR_ANONYMOUS, [], 0, false, 0, [], false, [], false, NO_FILE_LIMIT, NO_FILE_LIMIT, unknown, 0, -1, fun _ => none⟩

variable (user : RemoteUserItem Msg) (fileName : Str)

def putFile (fileAttrs : Msg) : RemoteUserItem Msg :=
  { user with files := fun name => if name = fileName then some fileAttrs else user.files name }

def removeFile : RemoteUserItem Msg :=
  { user with files := fun name => if name = fileName then none else user.files name }

end RemoteUserItem

/-- `_users`, by session ID. -/
abbrev Users (Msg : Type) := Str → Option (RemoteUserItem Msg)

/-- What the client is started with: the text for a bandwidth it does not know, and which results its query is for, if
it is active. -/
structure Settings (Msg : Type) where
  reader : Reader Msg
  unknown : Str
  queried : Str → Str → Bool

section

variable (c : Settings Msg) (users : Users Msg) (sessionID : Str)

/-- The user, if need be a new one, is changed. -/
def update (change : RemoteUserItem Msg → RemoteUserItem Msg) : Users Msg :=
  fun id => if id = sessionID then some (change ((users id).getD (.new c.unknown))) else users id

def putUser (userName hostName : Option Str) (port : Int32) (isBot : Option Bool) (installID : UInt64)
    (client : Option Str) (supportsPartialHash : Option Bool) : Users Msg :=
  update c users sessionID fun user =>
    { user with
      handle := userName.getD user.handle
      hostName := hostName.getD user.hostName
      port := if 0 ≤ port then port else user.port
      isBot := isBot.getD user.isBot
      installID := if 0 < installID ∧ user.installID = 0 then installID else user.installID
      client := client.getD user.client
      supportsPartialHash := supportsPartialHash.getD user.supportsPartialHash }

/-- The setters call `PutUser` with nothing to set, so that there is a user. -/
def setUser (change : RemoteUserItem Msg → RemoteUserItem Msg) : Users Msg :=
  update c (putUser c users sessionID none none (-1) none 0 none none) sessionID change

def setUserStatus (status : Str) : Users Msg :=
  setUser c users sessionID fun user => { user with status }

def setUserUploadStats (curUploads maxUploads : UInt32) : Users Msg :=
  setUser c users sessionID fun user => { user with curUploads, maxUploads }

def setUserBandwidth (bandwidthLabel : Str) (bandwidth : UInt32) : Users Msg :=
  setUser c users sessionID fun user => { user with bandwidthLabel, bandwidth }

def setUserFileCount (numSharedFiles : Int32) : Users Msg :=
  setUser c users sessionID fun user => { user with numSharedFiles }

def setUserIsFirewalled (firewalled : Bool) : Users Msg :=
  setUser c users sessionID fun user => { user with firewalled }

def putResult (fileName : Str) (firewalled : Bool) (fileInfo : Msg) : Users Msg :=
  setUser c users sessionID fun user => { user with firewalled }.putFile fileName fileInfo

def removeUser : Users Msg :=
  fun id => if id = sessionID then none else users id

def removeResult (fileName : Str) : Users Msg :=
  fun id => if id = sessionID then (users id).map (·.removeFile fileName) else users id

end

/-! ### The handler -/

section

variable (c : Settings Msg)

/-- A removed path: of a session or of a file. -/
def applyRemoved (users : Users Msg) : Path → Users Msg
  | [_, sessionID] => removeUser users sessionID
  | [_, sessionID, _, _, fileName] => removeResult users sessionID fileName
  | _ => users

/-- `strncmp` with the length of the prefix. -/
def hasPrefix (name : Str) (start : String) : Bool :=
  start.toList.isPrefixOf name

/-- The version info, if it is available. -/
def clientOf (msg : Msg) : Str :=
  match c.reader.findString msg "version_num", c.reader.findString msg "version_name" with
  | some vnum, some vname => vname ++ " v".toList ++ vnum
  | _, _ => []

/-- The name, the port and what else there is in a user's `name` node. -/
def applyName (users : Users Msg) (hostName sessionID : Str) (msg : Msg) : Users Msg :=
  let isBot := (c.reader.findBool msg "bot").getD false
  let installID := (c.reader.findInt64 msg "installid").getD 0
  let port := (c.reader.findInt32 msg "port").getD 0
  match c.reader.findString msg "name" with
  | none => users
  | some name =>
    let client := clientOf c msg
    putUser c users sessionID (some name) (some hostName) port (some isBot) installID
      (if client.isEmpty then none else some client)
      (some ((c.reader.findBool msg "supports_partial_hashing").getD false))

/-- The nodes below the home of a user. -/
def applyAttribute (users : Users Msg) (hostName sessionID nodeName : Str) (msg : Msg) : Users Msg :=
  if hasPrefix nodeName "name" then applyName c users hostName sessionID msg
  else if hasPrefix nodeName "userstatus" then
    match c.reader.findString msg "userstatus" with
    | some status => setUserStatus c users sessionID status
    | none => users
  else if hasPrefix nodeName "uploadstats" then
    match c.reader.findInt32 msg "cur", c.reader.findInt32 msg "max" with
    | some cur, some max => setUserUploadStats c users sessionID cur.toUInt32 max.toUInt32
    | _, _ => users
  else if hasPrefix nodeName "bandwidth" then
    match c.reader.findString msg "label", c.reader.findInt32 msg "bps" with
    | some label, some bps => setUserBandwidth c users sessionID label bps.toUInt32
    | _, _ => users
  else if hasPrefix nodeName "filecount" then
    match c.reader.findInt32 msg "filecount" with
    | some count => setUserFileCount c users sessionID count
    | none => users
  else if hasPrefix nodeName "fires" then setUserIsFirewalled c users sessionID true
  else if hasPrefix nodeName "files" then setUserIsFirewalled c users sessionID false
  else users

def applyFile (users : Users Msg) (sessionID dir fileName : Str) (msg : Msg) : Users Msg :=
  if c.queried sessionID fileName then
    match c.reader.inflateMessage msg with
    | some unpacked => putResult c users sessionID fileName ((dir ++ '/' :: fileName)[2]? == some 'r') unpacked
    | none => users
  else users

/-- One path with data. `FindMessage` gives the first of the values. -/
def applyItem (users : Users Msg) (item : Path × List (Option Msg)) : Users Msg :=
  match item with
  | ([hostName, sessionID, _, nodeName], some msg :: _) => applyAttribute c users hostName sessionID nodeName msg
  | ([_, sessionID, _, dir, fileName], some msg :: _) => applyFile c users sessionID dir fileName msg
  | _ => users

/-- `PR_RESULT_DATAITEMS` -/
def messageReceived (users : Users Msg) (msg : Results Msg) : Users Msg :=
  msg.items.foldl (applyItem c) (msg.removed.foldl applyRemoved users)

def messagesReceived (messages : List (Results Msg)) : Users Msg :=
  messages.foldl (messageReceived c) fun _ => none

end

/-! ### What the client shows -/

/-- What a user has one of, and its files by name. -/
inductive Role where
  | name
  | userstatus
  | uploadstats
  | bandwidth
  | filecount
  | file (fileName : Str)
  deriving DecidableEq

/-- What the client tells nodes apart by. -/
structure Key where
  sessionID : Str
  role : Role
  deriving DecidableEq

inductive Value (Msg : Type) where
  | name (handle : Str) (port : Int32) (isBot : Bool) (installID : UInt64) (client : Str) (supportsPartialHash : Bool)
  | userstatus (status : Str)
  | uploadstats (cur max : UInt32)
  | bandwidth (label : Str) (bps : UInt32)
  | filecount (count : Int32)
  | file (fileInfo : Option Msg)

def RemoteUserItem.value (user : RemoteUserItem Msg) : Role → Value Msg
  | .name => .name user.handle user.port user.isBot user.installID user.client user.supportsPartialHash
  | .userstatus => .userstatus user.status
  | .uploadstats => .uploadstats user.curUploads user.maxUploads
  | .bandwidth => .bandwidth user.bandwidthLabel user.bandwidth
  | .filecount => .filecount user.numSharedFiles
  | .file fileName => .file (user.files fileName)

def roleOf (nodeName : Str) : Option Role :=
  if hasPrefix nodeName "name" then some .name
  else if hasPrefix nodeName "userstatus" then some .userstatus
  else if hasPrefix nodeName "uploadstats" then some .uploadstats
  else if hasPrefix nodeName "bandwidth" then some .bandwidth
  else if hasPrefix nodeName "filecount" then some .filecount
  else none

/-- What the client takes a node for, if it looks at it. -/
def keyOf : Path → Option Key
  | [_, sessionID, _, nodeName] => (roleOf nodeName).map fun role => ⟨sessionID, role⟩
  | [_, sessionID, _, _, fileName] => some ⟨sessionID, .file fileName⟩
  | _ => none

/-- What the client keeps of an old value: it takes no negative port, no second installation and no empty version. -/
def Value.merge : Value Msg → Value Msg → Value Msg
  | .name _ port _ installID client _, .name handle' port' isBot' installID' client' supportsPartialHash' =>
    .name handle' (if 0 ≤ port' then port' else port) isBot'
      (if 0 < installID' ∧ installID = 0 then installID' else installID)
      (if client'.isEmpty then client else client') supportsPartialHash'
  | _, new => new

/-- The client takes all of a new value. -/
def Value.Accepts : Value Msg → Value Msg → Prop
  | .name _ _ _ installID client _, .name _ port' _ installID' client' _ =>
    0 ≤ port' ∧ (installID = 0 ∨ installID = installID') ∧ (client = [] ∨ client' ≠ [])
  | _, _ => True

section

variable (c : Settings Msg)

/-- What the data of a node says, if it has the fields that the client reads. -/
def decode (k : Key) (msg : Msg) : Option (Value Msg) :=
  match k.role with
  | .name =>
    (c.reader.findString msg "name").map fun name =>
      .name name ((c.reader.findInt32 msg "port").getD 0) ((c.reader.findBool msg "bot").getD false)
        ((c.reader.findInt64 msg "installid").getD 0) (clientOf c msg)
        ((c.reader.findBool msg "supports_partial_hashing").getD false)
  | .userstatus => (c.reader.findString msg "userstatus").map .userstatus
  | .uploadstats =>
    match c.reader.findInt32 msg "cur", c.reader.findInt32 msg "max" with
    | some cur, some max => some (.uploadstats cur.toUInt32 max.toUInt32)
    | _, _ => none
  | .bandwidth =>
    match c.reader.findString msg "label", c.reader.findInt32 msg "bps" with
    | some label, some bps => some (.bandwidth label bps.toUInt32)
    | _, _ => none
  | .filecount => (c.reader.findInt32 msg "filecount").map .filecount
  | .file fileName =>
    if c.queried k.sessionID fileName then (c.reader.inflateMessage msg).map fun unpacked => .file (some unpacked)
    else none

/-- What data leaves of an old value. -/
def shown (k : Key) (msg : Msg) (old : Value Msg) : Value Msg :=
  ((decode c k msg).map old.merge).getD old

def view (users : Users Msg) (k : Key) : Value Msg :=
  ((users k.sessionID).getD (.new c.unknown)).value k.role

/-- Of a user that has nothing. -/
def absent (k : Key) : Value Msg :=
  (RemoteUserItem.new c.unknown).value k.role

end

variable {c : Settings Msg} {users : Users Msg} {sessionID : Str} {k : Key} {msg : Msg} {p q : Path}

/-! ### What a change of a user changes of the view -/

theorem setUser_eq (change : RemoteUserItem Msg → RemoteUserItem Msg) :
    setUser c users sessionID change = update c users sessionID change := by
  funext id
  unfold setUser update
  by_cases hId : id = sessionID
  · subst hId
    simp [putUser, update]
  · simp only [if_neg hId, putUser, update]

theorem view_update (change : RemoteUserItem Msg → RemoteUserItem Msg) (k : Key) :
    view c (update c users sessionID change) k =
      if k.sessionID = sessionID then (change ((users k.sessionID).getD (.new c.unknown))).value k.role
      else view c users k := by
  unfold view update
  split <;> rfl

/-- A change of one thing of a user. -/
def Sets (change : RemoteUserItem Msg → RemoteUserItem Msg) (role : Role) (v : Value Msg) : Prop :=
  ∀ user r, (change user).value r = if r = role then (user.value r).merge v else user.value r

theorem view_of_sets {change : RemoteUserItem Msg → RemoteUserItem Msg} {role : Role} {v : Value Msg}
    (h : Sets change role v) (k : Key) :
    view c (update c users sessionID change) k =
      if k = ⟨sessionID, role⟩ then (view c users k).merge v else view c users k := by
  rw [view_update, h]
  obtain ⟨id, r⟩ := k
  by_cases hId : id = sessionID
  · by_cases hRole : r = role
    · simp [hId, hRole, view]
    · simp [hId, hRole, view]
  · simp [hId]

theorem view_applyName {hostName : Str} (k : Key) : view c (applyName c users hostName sessionID msg) k =
    if k = ⟨sessionID, .name⟩ then shown c ⟨sessionID, .name⟩ msg (view c users k) else view c users k := by
  unfold applyName shown decode
  dsimp only
  cases c.reader.findString msg "name" with
  | none => simp
  | some name =>
    refine view_of_sets (fun user r => ?_) k
    cases r with
    | name => by_cases hClient : (clientOf c msg).isEmpty <;> simp [RemoteUserItem.value, Value.merge, hClient]
    | _ => simp [RemoteUserItem.value]

theorem view_applyFile {dir fileName : Str} (k : Key) : view c (applyFile c users sessionID dir fileName msg) k =
    if k = ⟨sessionID, .file fileName⟩ then shown c ⟨sessionID, .file fileName⟩ msg (view c users k)
    else view c users k := by
  unfold applyFile shown decode
  dsimp only
  split
  · cases c.reader.inflateMessage msg with
    | none => simp
    | some unpacked =>
      dsimp only
      rw [putResult, setUser_eq]
      refine view_of_sets (fun user r => ?_) k
      cases r with
      | file name =>
        by_cases hName : name = fileName <;>
          simp [RemoteUserItem.value, RemoteUserItem.putFile, Value.merge, hName]
      | _ => simp [RemoteUserItem.value, RemoteUserItem.putFile]
  · simp

/-- A node below the home changes what its name stands for. -/
theorem view_applyAttribute {hostName nodeName : Str} {role : Role} (hRole : roleOf nodeName = some role) (k : Key) :
    view c (applyAttribute c users hostName sessionID nodeName msg) k =
      if k = ⟨sessionID, role⟩ then shown c ⟨sessionID, role⟩ msg (view c users k) else view c users k := by
  unfold roleOf at hRole
  unfold applyAttribute
  split at hRole
  · rename_i hName
    cases hRole
    rw [if_pos hName]
    exact view_applyName k
  rename_i hName
  rw [if_neg hName]
  split at hRole
  · rename_i hStatus
    cases hRole
    rw [if_pos hStatus]
    unfold shown decode
    dsimp only
    cases c.reader.findString msg "userstatus" with
    | none => simp
    | some status =>
      dsimp only
      rw [setUserStatus, setUser_eq]
      exact view_of_sets (fun user r => by cases r <;> simp [RemoteUserItem.value, Value.merge]) k
  rename_i hStatus
  rw [if_neg hStatus]
  split at hRole
  · rename_i hStats
    cases hRole
    rw [if_pos hStats]
    unfold shown decode
    dsimp only
    rcases c.reader.findInt32 msg "cur" with _ | cur
    · simp
    rcases c.reader.findInt32 msg "max" with _ | max
    · simp
    dsimp only
    rw [setUserUploadStats, setUser_eq]
    exact view_of_sets (fun user r => by cases r <;> simp [RemoteUserItem.value, Value.merge]) k
  rename_i hStats
  rw [if_neg hStats]
  split at hRole
  · rename_i hBandwidth
    cases hRole
    rw [if_pos hBandwidth]
    unfold shown decode
    dsimp only
    rcases c.reader.findString msg "label" with _ | label
    · simp
    rcases c.reader.findInt32 msg "bps" with _ | bps
    · simp
    dsimp only
    rw [setUserBandwidth, setUser_eq]
    exact view_of_sets (fun user r => by cases r <;> simp [RemoteUserItem.value, Value.merge]) k
  rename_i hBandwidth
  rw [if_neg hBandwidth]
  split at hRole
  · rename_i hCount
    cases hRole
    rw [if_pos hCount]
    unfold shown decode
    dsimp only
    cases c.reader.findInt32 msg "filecount" with
    | none => simp
    | some count =>
      dsimp only
      rw [setUserFileCount, setUser_eq]
      exact view_of_sets (fun user r => by cases r <;> simp [RemoteUserItem.value, Value.merge]) k
  · cases hRole

theorem view_applyAttribute_of_none {hostName nodeName : Str} (hRole : roleOf nodeName = none) (k : Key) :
    view c (applyAttribute c users hostName sessionID nodeName msg) k = view c users k := by
  have hFirewalled : ∀ firewalled, view c (setUserIsFirewalled c users sessionID firewalled) k = view c users k := by
    intro firewalled
    rw [setUserIsFirewalled, setUser_eq, view_update]
    split
    · unfold view
      cases k.role <;> rfl
    · rfl
  unfold roleOf at hRole
  unfold applyAttribute
  split_ifs at hRole ⊢
  · exact hFirewalled true
  · exact hFirewalled false
  · rfl

/-- One path with data changes what the client takes it for, and its first value decides. -/
theorem view_applyItem (hKey : keyOf p = some k) (msg : Msg) (rest : List (Option Msg)) (k' : Key) :
    view c (applyItem c users (p, some msg :: rest)) k' =
      if k' = k then shown c k msg (view c users k') else view c users k' := by
  unfold keyOf at hKey
  split at hKey
  · obtain ⟨role, hRole, rfl⟩ := Option.map_eq_some_iff.mp hKey
    exact view_applyAttribute hRole k'
  · cases hKey
    exact view_applyFile k'
  · cases hKey

theorem view_applyItem_of_ne {item : Path × List (Option Msg)} (hKey : keyOf item.1 ≠ some k) :
    view c (applyItem c users item) k = view c users k := by
  obtain ⟨p, values⟩ := item
  unfold applyItem
  split
  · rename_i hostName sessionID home nodeName msg rest hItem
    cases hItem
    cases hRole : roleOf nodeName with
    | none => exact view_applyAttribute_of_none hRole k
    | some role =>
      rw [view_applyAttribute hRole, if_neg]
      rintro rfl
      exact hKey (Option.map_eq_some_iff.mpr ⟨role, hRole, rfl⟩)
  · rename_i hItem
    cases hItem
    rw [view_applyFile, if_neg]
    rintro rfl
    exact hKey rfl
  · rfl

/-! ### What a message leaves -/

/-- A removed path takes this from what the client shows. -/
def Hits (p : Path) (k : Key) : Prop :=
  (∃ host, p = [host, k.sessionID]) ∨ p.length = 5 ∧ keyOf p = some k

instance (p : Path) (k : Key) : Decidable (Hits p k) :=
  decidable_of_iff (p[1]? = some k.sessionID ∧ p.length = 2 ∨ p.length = 5 ∧ keyOf p = some k) <| or_congr_left (by
    rcases p with _ | ⟨host, _ | ⟨id, _ | ⟨home, rest⟩⟩⟩ <;> simp)

theorem view_applyRemoved (p : Path) (k : Key) :
    view c (applyRemoved users p) k = if Hits p k then absent c k else view c users k := by
  unfold applyRemoved
  split
  · rename_i host sessionID
    have hHits : Hits [host, sessionID] k ↔ k.sessionID = sessionID := by
      simp [Hits, eq_comm]
    simp only [hHits]
    unfold view removeUser absent
    split <;> rfl
  · rename_i host sessionID home dir fileName
    have hHits : Hits [host, sessionID, home, dir, fileName] k ↔ k = ⟨sessionID, .file fileName⟩ := by
      refine ⟨?_, fun hSame => .inr ⟨rfl, congrArg some hSame.symm⟩⟩
      rintro (⟨_, hShort⟩ | ⟨-, hKey⟩)
      · cases hShort
      · exact (Option.some.inj hKey).symm
    simp only [hHits]
    obtain ⟨id, role⟩ := k
    unfold view removeResult absent
    by_cases hId : id = sessionID
    · rw [if_pos hId]
      cases users id with
      | none => simp
      | some user =>
        by_cases hRole : role = .file fileName
        · subst hRole
          simp [hId, RemoteUserItem.value, RemoteUserItem.removeFile, RemoteUserItem.new]
        · cases role with
          | file name => simp_all [RemoteUserItem.value, RemoteUserItem.removeFile]
          | _ => simp [RemoteUserItem.value, RemoteUserItem.removeFile]
    · simp [hId]
  · rename_i hUser hFile
    rw [if_neg]
    rintro (⟨host, rfl⟩ | ⟨hLength, hKey⟩)
    · exact hUser _ _ rfl
    · rcases p with _ | ⟨host, _ | ⟨sessionID, _ | ⟨home, _ | ⟨dir, _ | ⟨fileName, _ | ⟨_, rest⟩⟩⟩⟩⟩⟩ <;>
        simp at hLength
      exact hFile _ _ _ _ _ rfl

/-- The removals leave nothing of what they hit. -/
theorem view_removed (removed : List Path) (users : Users Msg) (k : Key) :
    view c (removed.foldl applyRemoved users) k =
      if ∃ p ∈ removed, Hits p k then absent c k else view c users k := by
  induction removed generalizing users with
  | nil => simp
  | cons p removed ih =>
    rw [List.foldl_cons, ih, view_applyRemoved]
    by_cases hRest : ∃ p ∈ removed, Hits p k
    · rw [if_pos hRest, if_pos]
      obtain ⟨p', hp', hHits⟩ := hRest
      exact ⟨p', List.mem_cons_of_mem _ hp', hHits⟩
    · rw [if_neg hRest]
      by_cases hHere : Hits p k
      · rw [if_pos hHere, if_pos ⟨p, List.mem_cons_self .., hHere⟩]
      · rw [if_neg hHere, if_neg]
        rintro ⟨p', hp', hHits⟩
        rcases List.mem_cons.mp hp' with rfl | hp'
        · exact hHere hHits
        · exact hRest ⟨p', hp', hHits⟩

/-- Paths that the client does not take for this leave it alone. -/
theorem view_items_of_ne {items : List (Path × List (Option Msg))} (h : ∀ item ∈ items, keyOf item.1 ≠ some k)
    (users : Users Msg) : view c (items.foldl (applyItem c) users) k = view c users k := by
  induction items generalizing users with
  | nil => rfl
  | cons item items ih =>
    rw [List.foldl_cons, ih fun other hOther => h other (List.mem_cons_of_mem _ hOther),
      view_applyItem_of_ne (h item (List.mem_cons_self ..))]

/-- The one path that the client takes for this decides. -/
theorem view_items {items : List (Path × List (Option Msg))} {rest : List (Option Msg)}
    (hNodup : (items.map Prod.fst).Nodup) (hMem : (p, some msg :: rest) ∈ items) (hKey : keyOf p = some k)
    (hOnly : ∀ item ∈ items, keyOf item.1 = some k → item.1 = p) (users : Users Msg) :
    view c (items.foldl (applyItem c) users) k = shown c k msg (view c users k) := by
  obtain ⟨before, after, rfl⟩ := List.append_of_mem hMem
  rw [List.map_append, List.map_cons, List.nodup_middle, List.nodup_cons, ← List.map_append] at hNodup
  have hOthers : ∀ item ∈ before ++ after, keyOf item.1 ≠ some k := by
    intro item hItem hSame
    have hIn : item ∈ before ++ (p, some msg :: rest) :: after := by
      rw [List.mem_append] at hItem ⊢
      exact hItem.imp_right (List.mem_cons_of_mem _)
    exact hNodup.1 (List.mem_map.mpr ⟨item, hItem, hOnly item hIn hSame⟩)
  rw [List.foldl_append, List.foldl_cons,
    view_items_of_ne fun item hItem => hOthers item (List.mem_append_right _ hItem), view_applyItem hKey, if_pos rfl,
    view_items_of_ne fun item hItem => hOthers item (List.mem_append_left _ hItem)]

/-- In a message a field has its last value for the node. -/
theorem valueAt_of_mem {items : List (Path × List (Option Msg))} {values : List (Option Msg)}
    (hNodup : (items.map Prod.fst).Nodup) (hMem : (p, values) ∈ items) :
    DataItems.valueAt p items = values.getLast? := by
  obtain ⟨before, after, rfl⟩ := List.append_of_mem hMem
  rw [List.map_append, List.map_cons, List.nodup_middle, List.nodup_cons, ← List.map_append] at hNodup
  have hOthers : ∀ item ∈ before ++ after, item.1 ≠ p := fun item hItem hSame =>
    hNodup.1 (List.mem_map.mpr ⟨item, hItem, hSame⟩)
  have hNone : ∀ part : List (Path × List (Option Msg)), (∀ item ∈ part, item ∈ before ++ after) →
      (part.flatMap fun item => if item.1 = p then item.2 else []) = [] := fun part hPart =>
    List.flatMap_eq_nil_iff.mpr fun item hItem => if_neg (hOthers item (hPart item hItem))
  unfold DataItems.valueAt
  rw [List.flatMap_append, List.flatMap_cons, hNone before fun _ h => List.mem_append_left _ h,
    hNone after fun _ h => List.mem_append_right _ h]
  simp

theorem merge_of_accepts {old new : Value Msg} (h : old.Accepts new) : old.merge new = new := by
  unfold Value.merge
  split
  · obtain ⟨hPort, hInstall, hClient⟩ := h
    rename_i installID client _ _ _ _ installID' client' _
    have hID : (if 0 < installID' ∧ installID = 0 then installID' else installID) = installID' := by
      split
      · rfl
      · rename_i hKept
        rcases hInstall with rfl | rfl
        · exact (UInt64.le_zero_iff.mp (UInt64.not_lt.mp fun hNew => hKept ⟨hNew, rfl⟩)).symm
        · rfl
    have hText : (if client'.isEmpty then client else client') = client' := by
      simp only [List.isEmpty_iff]
      split
      · rename_i hEmpty
        exact (hClient.resolve_right (not_not_intro hEmpty)).trans hEmpty.symm
      · rfl
    rw [if_pos hPort, hID, hText]
  · rfl

/-! ### Messages that the client follows -/

/-- The view of a table of nodes, with the last data of each. -/
structure Shows (c : Settings Msg) (users : Users Msg) (t : Table Msg) : Prop where
  there : ∀ q k data, keyOf q = some k → t q = some data → data.bind (decode c k) = some (view c users k)
  absent : ∀ k, (∀ q, keyOf q = some k → t q = none) → view c users k = absent c k

/-- What a message must be for the client to follow it. -/
structure Followed (c : Settings Msg) (users : Users Msg) (t : Table Msg) (m : Results Msg) : Prop where
  /-- The first value of a path is the last. -/
  current : ∀ item ∈ m.items, item.2.head? = item.2.getLast?
  /-- The client can read the data, and takes all of it. -/
  readable : ∀ q k data, keyOf q = some k → DataItems.valueAt q m.items = some data →
    ∃ msg v, data = some msg ∧ decode c k msg = some v ∧
      (if ∃ p ∈ m.removed, Hits p k then ServerUpdates.absent c k else view c users k).Accepts v
  /-- What is removed below the home of a user comes back, or the user goes with it. -/
  removed : ∀ q ∈ m.removed, ∀ k, keyOf q = some k → t q ≠ none →
    (∃ p ∈ m.removed, Hits p k) ∨ q ∈ m.items.map Prod.fst
  /-- No two nodes are one for the client. -/
  single : ∀ q q' k, keyOf q = some k → keyOf q' = some k → t.apply m.toDataItems q ≠ none →
    t.apply m.toDataItems q' ≠ none → q = q'
  /-- What goes with a removed path is not there, or it comes back. -/
  kept : ∀ p ∈ m.removed, ∀ q k, keyOf q = some k → Hits p k → t.apply m.toDataItems q ≠ none →
    q ∈ m.items.map Prod.fst

variable {t : Table Msg} {m : Results Msg}

theorem apply_of_not_mem (h : q ∉ m.items.map Prod.fst) :
    t.apply m.toDataItems q = if q ∈ m.removed then none else t q := by
  rw [Table.apply_eq, DataItems.valueAt_of_not_mem fun item hItem hSame => h (List.mem_map.mpr ⟨item, hItem, hSame⟩),
    Option.none_or]

/-- A path with data has the data that the client looks at. -/
theorem Followed.first (h : Followed c users t m) (hMem : q ∈ m.items.map Prod.fst) :
    ∃ data rest, (q, data :: rest) ∈ m.items ∧ DataItems.valueAt q m.items = some data ∧
      t.apply m.toDataItems q = some data := by
  obtain ⟨⟨_, values⟩, hItem, rfl⟩ := List.mem_map.mp hMem
  obtain ⟨data, rest, rfl⟩ := List.exists_cons_of_ne_nil (m.nonempty _ hItem)
  have hLast := valueAt_of_mem m.nodup hItem
  rw [← h.current _ hItem, List.head?_cons] at hLast
  exact ⟨data, rest, hItem, hLast, by rw [Table.apply_eq, hLast, Option.some_or]⟩

/-- The client shows the data of a path. -/
theorem Followed.view_of_mem (h : Followed c users t m) (hMem : q ∈ m.items.map Prod.fst) (hKey : keyOf q = some k) :
    ∃ data, t.apply m.toDataItems q = some data ∧
      data.bind (decode c k) = some (view c (messageReceived c users m) k) := by
  obtain ⟨data, rest, hItem, hValue, hApply⟩ := h.first hMem
  obtain ⟨msg, v, rfl, hDecode, hAccepts⟩ := h.readable q k data hKey hValue
  have hOnly : ∀ item ∈ m.items, keyOf item.1 = some k → item.1 = q := by
    intro item hOther hSame
    obtain ⟨_, _, -, -, hThere⟩ := h.first (List.mem_map.mpr ⟨item, hOther, rfl⟩)
    exact h.single _ _ k hSame hKey (hThere ▸ Option.some_ne_none _) (hApply ▸ Option.some_ne_none _)
  refine ⟨some msg, hApply, ?_⟩
  rw [Option.bind_some, hDecode, messageReceived, view_items m.nodup hItem hKey hOnly, view_removed, shown, hDecode,
    Option.map_some, Option.getD_some, merge_of_accepts hAccepts]

/-- Without data for it the client keeps what it shows, if no removed path takes it. -/
theorem view_of_not_mem (h : ∀ q ∈ m.items.map Prod.fst, keyOf q ≠ some k) :
    view c (messageReceived c users m) k =
      if ∃ p ∈ m.removed, Hits p k then absent c k else view c users k := by
  rw [messageReceived, view_items_of_ne fun item hItem => h _ (List.mem_map.mpr ⟨item, hItem, rfl⟩), view_removed]

theorem shows_messageReceived (hShows : Shows c users t) (h : Followed c users t m) :
    Shows c (messageReceived c users m) (t.apply m.toDataItems) := by
  constructor
  · intro q k data hKey hThere
    by_cases hTaken : ∃ q' ∈ m.items.map Prod.fst, keyOf q' = some k
    · obtain ⟨q', hMem, hKey'⟩ := hTaken
      obtain ⟨data', hThere', hView⟩ := h.view_of_mem hMem hKey'
      obtain rfl := h.single q q' k hKey hKey' (hThere ▸ Option.some_ne_none _) (hThere' ▸ Option.some_ne_none _)
      obtain rfl := Option.some.inj (hThere.symm.trans hThere')
      exact hView
    · have hOut : q ∉ m.items.map Prod.fst := fun hMem => hTaken ⟨q, hMem, hKey⟩
      have hNot : ¬∃ p ∈ m.removed, Hits p k := by
        rintro ⟨p, hp, hHits⟩
        exact hOut (h.kept p hp q k hKey hHits (hThere ▸ Option.some_ne_none _))
      rw [view_of_not_mem fun q' hMem hKey' => hTaken ⟨q', hMem, hKey'⟩, if_neg hNot]
      rw [apply_of_not_mem hOut] at hThere
      split at hThere
      · cases hThere
      · exact hShows.there q k data hKey hThere
  · intro k hNone
    have hTaken : ∀ q ∈ m.items.map Prod.fst, keyOf q ≠ some k := by
      intro q hMem hKey
      obtain ⟨data, hThere, -⟩ := h.view_of_mem hMem hKey
      rw [hNone q hKey] at hThere
      cases hThere
    rw [view_of_not_mem hTaken]
    split
    · rfl
    · rename_i hNot
      refine hShows.absent k fun q hKey => ?_
      have hOut : q ∉ m.items.map Prod.fst := fun hMem => hTaken q hMem hKey
      have hAfter := hNone q hKey
      rw [apply_of_not_mem hOut] at hAfter
      split at hAfter
      · rename_i hRemoved
        by_contra hThere
        exact (h.removed q hRemoved k hKey hThere).elim hNot hOut
      · exact hAfter

/-- What the server has sent, by node. -/
def serverTable (messages : List (Results Msg)) : Table Msg :=
  Table.applyAll (fun _ => none) (messages.map Results.toDataItems)

/-- Every message is a text, for each of its fields. -/
def texts : Settings Str :=
  { reader := ⟨fun text _ => some text, fun _ _ => none, fun _ _ => none, fun _ _ => none, some⟩
    unknown := []
    queried := fun _ _ => true }

def statusPath : Path :=
  [['h'], ['2'], "beshare".toList, "userstatus".toList]

/-- A message with values of one status. -/
def statuses (first : Str) (rest : List Str) : Results Str :=
  ⟨⟨[], [(statusPath, some first :: rest.map some)]⟩, List.nodup_singleton _, fun _ hItem =>
    List.mem_singleton.mp hItem ▸ List.cons_ne_nil _ _⟩

theorem serverTable_statuses {first : Str} (h : serverTable [statuses first []] q ≠ none) : q = statusPath := by
  by_contra hOther
  refine h ?_
  change Table.apply (fun _ => none) (statuses first []).toDataItems q = none
  rw [apply_of_not_mem fun hMem => hOther (List.mem_singleton.mp hMem)]
  exact if_neg List.not_mem_nil

theorem followed_statuses (first : Str) :
    Followed texts (messagesReceived texts []) (serverTable []) (statuses first []) where
  current item hItem := by
    obtain rfl := List.mem_singleton.mp hItem
    rfl
  readable q k data hKey hValue := by
    by_cases hHere : q = statusPath
    · subst hHere
      obtain rfl := Option.some.inj hKey
      obtain rfl := Option.some.inj hValue
      exact ⟨first, .userstatus first, rfl, rfl, trivial⟩
    · rw [DataItems.valueAt_of_not_mem fun item hItem => List.mem_singleton.mp hItem ▸ Ne.symm hHere] at hValue
      cases hValue
  removed q hRemoved := (List.not_mem_nil hRemoved).elim
  single q q' k hKey hKey' hThere hThere' := (serverTable_statuses hThere).trans (serverTable_statuses hThere').symm
  kept p hRemoved := (List.not_mem_nil hRemoved).elim

deriving instance DecidableEq for DataItems

/-- A session subscribes, and another sets its status twice in one message. -/
def burst : List (ServerEvent Str) :=
  [.attach ['h'] ['1'] 9, .attach ['h'] ['2'] 9,
    .received ['1'] (.setParameters [⟨"SUBSCRIBE:/*/*/*/*".toList, none, none⟩]),
    .received ['2'] (.setData [("beshare/userstatus".toList, "here".toList),
      ("beshare/userstatus".toList, "away".toList)] false)]

end BeShare.Client.ServerUpdates
