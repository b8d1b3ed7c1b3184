import BeShare.Reflect.Routing
import BeShare.Lib.Tokens
import Mathlib.Algebra.GroupWithZero.Nat

/-!
`PR_COMMAND_JETTISONRESULTS`: the results that wait in the outgoing queue of a session, and are taken out again. Two
messages of a queue are never one object here.
-/

namespace BeShare.Muscle.Reflect

open BeShare.Lib

variable {regex : Regex} {Msg : Type}

def PR_NAME_REMOVED_DATAITEMS : Str := ['!', 'S', 'n', 'R', 'd']

/-- The items of an array that have another type are only kept. -/
inductive DataArray (Msg : Type) where
  | strings (items : List Str)
  | messages (items : List (Option Msg))
  | other (type : UInt32) (items : List (List UInt8))

namespace DataArray

def numItems : DataArray Msg → Nat
  | strings items => items.length
  | messages items => items.length
  | other _ items => items.length

def removeDataItem (index : Nat) : DataArray Msg → DataArray Msg
  | strings items => .strings (items.eraseIdx index)
  | messages items => .messages (items.eraseIdx index)
  | other type items => .other type (items.eraseIdx index)

/-- A field goes with its last item. -/
def unlessEmpty (array : DataArray Msg) : Option (DataArray Msg) :=
  if array.numItems = 0 then none else some array

end DataArray

/-- A message in the queue, with its fields in their order. -/
structure QueuedMessage (Msg : Type) where
  what : UInt32
  entries : List (Str × DataArray Msg)
  nodup : (entries.map Prod.fst).Nodup

namespace QueuedMessage

/-- Each field is changed, or removed. -/
def mapEntries (f : Str → DataArray Msg → Option (DataArray Msg)) (msg : QueuedMessage Msg) : QueuedMessage Msg where
  what := msg.what
  entries := msg.entries.filterMap fun entry => (f entry.1 entry.2).map (Prod.mk entry.1)
  nodup := by
    have hNames : (msg.entries.filterMap fun entry => (f entry.1 entry.2).map (Prod.mk entry.1)).map Prod.fst =
        (msg.entries.filter fun entry => (f entry.1 entry.2).isSome).map Prod.fst := by
      induction msg.entries with
      | nil => rfl
      | cons entry entries ih =>
        cases hEntry : f entry.1 entry.2 with
        | none => simpa [hEntry] using ih
        | some array => simpa [hEntry] using ih
    rw [hNames]
    exact msg.nodup.sublist (List.filter_sublist.map _)

/-- The field `name` is changed, or removed. -/
def adjust (name : Str) (f : DataArray Msg → Option (DataArray Msg)) (msg : QueuedMessage Msg) : QueuedMessage Msg :=
  msg.mapEntries fun other array => if other = name then f array else some array

/-- `GetArray` -/
def getArray (msg : QueuedMessage Msg) (name : Str) : Option (DataArray Msg) :=
  (msg.entries.find? fun entry => entry.1 == name).map Prod.snd

def findString (msg : QueuedMessage Msg) (name : Str) (index : Nat) : Option Str :=
  match msg.getArray name with
  | some (.strings items) => items[index]?
  | _ => none

def findMessage (msg : QueuedMessage Msg) (name : Str) (index : Nat) : Option (Option Msg) :=
  match msg.getArray name with
  | some (.messages items) => items[index]?
  | _ => none

def removeName (msg : QueuedMessage Msg) (name : Str) : QueuedMessage Msg :=
  msg.adjust name fun _ => none

def removeData (msg : QueuedMessage Msg) (name : Str) (index : Nat) : QueuedMessage Msg :=
  msg.adjust name fun array => (array.removeDataItem index).unlessEmpty

def clear (msg : QueuedMessage Msg) : QueuedMessage Msg := ⟨msg.what, [], List.nodup_nil⟩

/-- The items of all fields. -/
def numItems (msg : QueuedMessage Msg) : Nat := (msg.entries.map fun entry => entry.2.numItems).sum

end QueuedMessage

/-- The steps of the loop of `GetPathDepth` behind a slash, as long as something follows. -/
def depthBehindSlashes : Str → Nat
  | [] => 0
  | c :: path => (if c = '/' ∧ path ≠ [] then 1 else 0) + depthBehindSlashes path

/-- The path without its leading slash. -/
def withoutSlash (path : Str) : Str :=
  if path.head? = some '/' then path.tail else path

def getPathDepth (path : Str) : Nat :=
  (if withoutSlash path = [] then 0 else 1) + depthBehindSlashes (withoutSlash path)

/-- `filter->Matches(*optMessage, NULL)`: what a filter says about data without a node. -/
abbrev WithoutNode (Msg : Type) := QueryFilter Msg → Msg → Bool

namespace PathMatcher

variable (asks : WithoutNode Msg)

/-- `MatchesPath(path, optMessage, NULL)` -/
def matchesPath (m : PathMatcher regex Msg) (path : Str) (optMessage : Option Msg) : Bool :=
  let numClauses := getPathDepth path
  m.entries.any fun entry =>
    entry.parser.length == numClauses &&
    (List.range numClauses).all (fun j =>
      match (tokens (· == '/') (withoutSlash path))[j]? with
      | some token => entry.matchesAt j token
      | none => false) &&
    match entry.filter, optMessage with
    | some filter, some msg => asks filter msg
    | _, _ => true

/-- The loop over the removed paths, which stops unless it takes more than the given steps. -/
def jettisonRemoved (m : PathMatcher regex Msg) : Nat → QueuedMessage Msg → Nat → Option (QueuedMessage Msg)
  | 0, _, _ => none
  | fuel + 1, msg, nextr =>
    match msg.findString PR_NAME_REMOVED_DATAITEMS nextr with
    | none => some msg
    | some rname =>
      if m.matchesPath asks rname none then
        jettisonRemoved m fuel (msg.removeData PR_NAME_REMOVED_DATAITEMS nextr) nextr
      else jettisonRemoved m fuel msg (nextr + 1)

/-- The loop over the sub-messages of a field. Where the field is removed, its name is cleared, and `nextFieldName`
still points to it. -/
def jettisonMessages (m : PathMatcher regex Msg) :
    Nat → QueuedMessage Msg → Str → Nat → Option (QueuedMessage Msg)
  | 0, _, _, _ => none
  | fuel + 1, msg, nextFieldName, j =>
    match msg.findMessage nextFieldName j with
    | none => some msg
    | some nextSubMsg =>
      if m.matchesPath asks nextFieldName nextSubMsg then
        let msg := msg.removeData nextFieldName 0
        jettisonMessages m fuel msg (if (msg.getArray nextFieldName).isSome then nextFieldName else []) j
      else jettisonMessages m fuel msg nextFieldName (j + 1)

/-- The loop over the fields with the given names. The iterator passes over those that are gone or have another
type. -/
def jettisonFields (m : PathMatcher regex Msg) : List Str → QueuedMessage Msg → Option (QueuedMessage Msg)
  | [], msg => some msg
  | nextFieldName :: names, msg =>
    match msg.getArray nextFieldName with
    | some (.messages _) =>
      if 0 < m.numFilters then
        (m.jettisonMessages asks (2 * msg.numItems + 1) msg nextFieldName 0).bind (jettisonFields m names)
      else if m.matchesPath asks nextFieldName none then jettisonFields m names (msg.removeName nextFieldName)
      else jettisonFields m names msg
    | _ => jettisonFields m names msg

end PathMatcher

/-- What is left of a message with data items. -/
def jettisonMessage (asks : WithoutNode Msg) (matcher : Option (PathMatcher regex Msg)) (msg : QueuedMessage Msg) :
    Option (QueuedMessage Msg) :=
  match matcher with
  | none => some msg.clear
  | some m =>
    (m.jettisonRemoved asks (msg.numItems + 1) msg 0).bind fun msg =>
      m.jettisonFields asks (msg.entries.map Prod.fst) msg

/-- The loop over the first `i` messages of the queue, from the last of them back. -/
def jettisonQueue (asks : WithoutNode Msg) (matcher : Option (PathMatcher regex Msg)) :
    Nat → List (Option (QueuedMessage Msg)) → Option (List (Option (QueuedMessage Msg)))
  | 0, oq => some oq
  | i + 1, oq =>
    match oq[i]? with
    | some (some msg) =>
      if msg.what = PR_RESULT_DATAITEMS then
        (jettisonMessage asks matcher msg).bind fun msg =>
          jettisonQueue asks matcher i (if msg.entries = [] then oq.eraseIdx i else oq.set i (some msg))
      else jettisonQueue asks matcher i oq
    | _ => jettisonQueue asks matcher i oq

/-- `JettisonOutgoingResults` -/
def jettisonOutgoingResults (asks : WithoutNode Msg) (matcher : Option (PathMatcher regex Msg))
    (oq : List (Option (QueuedMessage Msg))) : Option (List (Option (QueuedMessage Msg))) :=
  jettisonQueue asks matcher oq.length oq

namespace QueuedMessage

variable {msg : QueuedMessage Msg} {name : Str} {array : DataArray Msg}
  {f g : Str → DataArray Msg → Option (DataArray Msg)}

theorem ext {msg msg' : QueuedMessage Msg} (hWhat : msg.what = msg'.what) (hEntries : msg.entries = msg'.entries) :
    msg = msg' := by
  cases msg
  cases msg'
  cases hWhat
  cases hEntries
  rfl

theorem getArray_eq_some : msg.getArray name = some array ↔ (name, array) ∈ msg.entries := by
  constructor
  · intro h
    obtain ⟨entry, hFind, rfl⟩ := Option.map_eq_some_iff.mp h
    have hName : entry.1 = name := by simpa using List.find?_some hFind
    rw [← hName]
    exact List.mem_of_find?_eq_some hFind
  · intro hMem
    rw [getArray]
    cases hFind : msg.entries.find? fun entry => entry.1 == name with
    | none => exact absurd (beq_self_eq_true name) (List.find?_eq_none.mp hFind _ hMem)
    | some entry =>
      have hName : entry.1 = name := by simpa using List.find?_some hFind
      exact congrArg (some ∘ Prod.snd) (List.inj_on_of_nodup_map msg.nodup (List.mem_of_find?_eq_some hFind) hMem hName)

theorem mem_mapEntries {name : Str} {array : DataArray Msg} :
    (name, array) ∈ (msg.mapEntries f).entries ↔ ∃ old, (name, old) ∈ msg.entries ∧ f name old = some array := by
  constructor
  · intro hMem
    obtain ⟨⟨other, old⟩, hOld, hMap⟩ := List.mem_filterMap.mp hMem
    obtain ⟨_, hNew, hPair⟩ := Option.map_eq_some_iff.mp hMap
    cases hPair
    exact ⟨old, hOld, hNew⟩
  · rintro ⟨old, hOld, hNew⟩
    exact List.mem_filterMap.mpr ⟨_, hOld, by rw [hNew]; rfl⟩

theorem getArray_mapEntries (f : Str → DataArray Msg → Option (DataArray Msg)) (msg : QueuedMessage Msg) (name : Str) :
    (msg.mapEntries f).getArray name = (msg.getArray name).bind (f name) := by
  refine Option.ext fun array => ?_
  rw [getArray_eq_some, mem_mapEntries, Option.bind_eq_some_iff]
  exact exists_congr fun old => and_congr_left' getArray_eq_some.symm

theorem mapEntries_mapEntries (f g : Str → DataArray Msg → Option (DataArray Msg)) (msg : QueuedMessage Msg) :
    (msg.mapEntries f).mapEntries g = msg.mapEntries fun name array => (f name array).bind (g name) := by
  refine ext rfl ?_
  show List.filterMap _ (List.filterMap _ msg.entries) = _
  rw [List.filterMap_filterMap]
  refine List.filterMap_congr fun entry _ => ?_
  show ((f entry.1 entry.2).map _).bind _ = ((f entry.1 entry.2).bind (g entry.1)).map _
  cases f entry.1 entry.2 <;> rfl

theorem mapEntries_adjust (name : Str) (f : DataArray Msg → Option (DataArray Msg))
    (g : Str → DataArray Msg → Option (DataArray Msg)) (msg : QueuedMessage Msg) :
    (msg.adjust name f).mapEntries g =
      msg.mapEntries fun other array => (if other = name then f array else some array).bind (g other) :=
  mapEntries_mapEntries _ g msg

theorem mapEntries_congr (h : ∀ name array, (name, array) ∈ msg.entries → f name array = g name array) :
    msg.mapEntries f = msg.mapEntries g :=
  ext rfl (List.filterMap_congr fun entry hEntry => by rw [h entry.1 entry.2 hEntry])

/-- A field shows what was done to it. -/
theorem eq_of_mapEntries (h : msg.mapEntries f = msg.mapEntries g) (hMem : (name, array) ∈ msg.entries) :
    f name array = g name array := by
  have hSame := congrArg (fun msg => msg.getArray name) h
  simpa only [getArray_mapEntries, getArray_eq_some.mpr hMem, Option.bind_some] using hSame

theorem mapEntries_some (msg : QueuedMessage Msg) : msg.mapEntries (fun _ array => some array) = msg :=
  ext rfl (by simp [mapEntries])

theorem getArray_adjust (f : DataArray Msg → Option (DataArray Msg)) (msg : QueuedMessage Msg) (name : Str) :
    (msg.adjust name f).getArray name = (msg.getArray name).bind f := by
  rw [adjust, getArray_mapEntries]
  simp only [if_true]

theorem getArray_adjust_ne (f : DataArray Msg → Option (DataArray Msg)) (msg : QueuedMessage Msg) {name other : Str}
    (h : other ≠ name) : (msg.adjust name f).getArray other = msg.getArray other := by
  rw [adjust, getArray_mapEntries]
  simp only [if_neg h]
  exact Option.bind_fun_some _

theorem adjust_adjust (f g : DataArray Msg → Option (DataArray Msg)) (msg : QueuedMessage Msg) (name : Str) :
    (msg.adjust name f).adjust name g = msg.adjust name fun array => (f array).bind g := by
  rw [adjust, adjust, mapEntries_mapEntries]
  refine mapEntries_congr fun other array _ => ?_
  by_cases hOther : other = name
  · simp only [if_pos hOther]
  · simp only [if_neg hOther, Option.bind_some]

/-- What is done to a field depends on the array that it has. -/
theorem adjust_congr {f g : DataArray Msg → Option (DataArray Msg)}
    (h : ∀ array, msg.getArray name = some array → f array = g array) : msg.adjust name f = msg.adjust name g := by
  refine mapEntries_congr fun other array hMem => ?_
  by_cases hOther : other = name
  · simp only [if_pos hOther]
    exact h array (getArray_eq_some.mpr (hOther ▸ hMem))
  · simp only [if_neg hOther]

theorem adjust_eq_self {f : DataArray Msg → Option (DataArray Msg)}
    (h : ∀ array, msg.getArray name = some array → f array = some array) : msg.adjust name f = msg := by
  refine (mapEntries_congr fun other array hMem => ?_).trans msg.mapEntries_some
  by_cases hOther : other = name
  · rw [if_pos hOther]
    exact h array (getArray_eq_some.mpr (hOther ▸ hMem))
  · exact if_neg hOther

theorem numItems_le (h : msg.getArray name = some array) : array.numItems ≤ msg.numItems := by
  obtain ⟨a, b, hSplit⟩ := List.append_of_mem (getArray_eq_some.mp h)
  rw [numItems, hSplit, List.map_append, List.map_cons, List.sum_append_nat, List.sum_cons]
  exact (Nat.le_add_right ..).trans (Nat.le_add_left ..)

end QueuedMessage

/-! ### What the loops leave -/

/-- What a field keeps that had the items `old`: it is gone if none is left. -/
def stay {α : Type} (old left : List α) : Option (List α) :=
  if left = [] ∧ old ≠ [] then none else some left

theorem stay_self {α : Type} (l : List α) : stay l l = some l := if_neg fun h => h.2 h.1

theorem stay_of_ne {α : Type} {old old' : List α} (h : old ≠ []) (h' : old' ≠ []) (left : List α) :
    stay old left = stay old' left := by
  simp only [stay, ne_eq, h, h', not_false_eq_true, and_true]

/-- `f`, so many times, on what it left the last time. -/
def tries {α : Type} (f : α → Option α) : Nat → α → Option α
  | 0, a => some a
  | n + 1, a => (f a).bind (tries f n)

theorem tries_add {α : Type} (f : α → Option α) (n k : Nat) (a : α) :
    tries f (n + k) a = (tries f n a).bind (tries f k) := by
  induction n generalizing a with
  | zero => rw [Nat.zero_add, tries, Option.bind_some]
  | succ n ih =>
    rw [Nat.succ_add, tries, tries, Option.bind_assoc]
    exact congrArg _ (funext ih)

/-- A field from which an item is removed. -/
theorem removeData_eq {msg : QueuedMessage Msg} {name : Str} {array : DataArray Msg} (index : Nat)
    (h : msg.getArray name = some array) :
    msg.removeData name index = msg.adjust name fun _ => (array.removeDataItem index).unlessEmpty :=
  QueuedMessage.adjust_congr fun other hOther => by rw [Option.some.inj (h.symm.trans hOther)]

namespace PathMatcher

variable {asks : WithoutNode Msg} {m : PathMatcher regex Msg} {msg : QueuedMessage Msg}

/-- The removed paths that do not match stay. -/
def keepRemoved (asks : WithoutNode Msg) (m : PathMatcher regex Msg) : DataArray Msg → Option (DataArray Msg)
  | .strings items => (stay items (items.filter fun rname => !m.matchesPath asks rname none)).map .strings
  | array => some array

/-- As many sub-messages go as match, but from the front. -/
def dropMatches (asks : WithoutNode Msg) (m : PathMatcher regex Msg) (name : Str) :
    DataArray Msg → Option (DataArray Msg)
  | .messages items => (stay items (items.drop (items.countP (m.matchesPath asks name)))).map .messages
  | array => some array

theorem jettisonRemoved_eq {fuel : Nat} {a b : List Str}
    (hArray : msg.getArray PR_NAME_REMOVED_DATAITEMS = some (.strings (a ++ b))) (hFuel : b.length < fuel) :
    m.jettisonRemoved asks fuel msg a.length = some (msg.adjust PR_NAME_REMOVED_DATAITEMS fun _ =>
      (stay (a ++ b) (a ++ b.filter fun rname => !m.matchesPath asks rname none)).map .strings) := by
  induction b generalizing a msg fuel with
  | nil =>
    obtain ⟨fuel, rfl⟩ := Nat.exists_eq_succ_of_ne_zero (Nat.ne_zero_of_lt hFuel)
    have hNone : msg.findString PR_NAME_REMOVED_DATAITEMS a.length = none := by
      rw [QueuedMessage.findString, hArray]
      simp
    rw [jettisonRemoved, hNone]
    refine congrArg some (QueuedMessage.adjust_eq_self fun array hOld => ?_).symm
    rw [Option.some.inj (hOld.symm.trans hArray), List.filter_nil, stay_self]
    rfl
  | cons rname b ih =>
    obtain ⟨fuel, rfl⟩ := Nat.exists_eq_succ_of_ne_zero (Nat.ne_zero_of_lt hFuel)
    rw [List.length_cons] at hFuel
    have hFound : msg.findString PR_NAME_REMOVED_DATAITEMS a.length = some rname := by
      rw [QueuedMessage.findString, hArray]
      simp
    rw [jettisonRemoved, hFound]
    simp only
    by_cases hMatch : m.matchesPath asks rname none = true
    · rw [if_pos hMatch, List.filter_cons_of_neg (by simpa using hMatch), removeData_eq _ hArray]
      have hErase : (a ++ rname :: b).eraseIdx a.length = a ++ b := by
        rw [List.eraseIdx_append_of_length_le (Nat.le_refl _), Nat.sub_self]
        rfl
      rw [DataArray.removeDataItem, hErase]
      by_cases hLast : a ++ b = []
      · -- the field is gone
        obtain ⟨rfl, rfl⟩ := List.append_eq_nil_iff.mp hLast
        have hGone : (msg.adjust PR_NAME_REMOVED_DATAITEMS fun _ =>
            (DataArray.strings ([] ++ [])).unlessEmpty).findString PR_NAME_REMOVED_DATAITEMS ([] : List Str).length =
              none := by
          rw [QueuedMessage.findString, QueuedMessage.getArray_adjust, hArray]
          rfl
        obtain ⟨fuel, rfl⟩ := Nat.exists_eq_succ_of_ne_zero (Nat.ne_zero_of_lt (Nat.lt_of_succ_lt_succ hFuel))
        rw [jettisonRemoved, hGone]
        rfl
      · have hStays : (DataArray.strings (a ++ b) : DataArray Msg).unlessEmpty = some (.strings (a ++ b)) :=
          if_neg fun h => hLast (List.length_eq_zero_iff.mp h)
        rw [hStays, ih (by rw [QueuedMessage.getArray_adjust, hArray]; rfl) (Nat.lt_of_succ_lt_succ hFuel),
          QueuedMessage.adjust_adjust]
        simp only [Option.bind_some]
        rw [stay_of_ne hLast (List.append_ne_nil_of_right_ne_nil a (List.cons_ne_nil rname b))]
    · rw [if_neg hMatch, List.filter_cons_of_pos (by simpa using hMatch)]
      have hNext := @ih msg fuel (a ++ [rname]) (by rw [hArray, List.append_assoc]; rfl) (Nat.lt_of_succ_lt_succ hFuel)
      rw [List.length_append, List.append_assoc, List.append_assoc] at hNext
      exact hNext

theorem findMessage_append {name : Str} {a b : List (Option Msg)}
    (hArray : msg.getArray name = some (.messages (a ++ b))) : msg.findMessage name a.length = b.head? := by
  rw [QueuedMessage.findMessage, hArray]
  cases b <;> simp

/-- Some sub-messages stay. -/
theorem jettisonMessages_stay {fuel : Nat} {name : Str} {a b : List (Option Msg)}
    (hArray : msg.getArray name = some (.messages (a ++ b))) (hFuel : b.length < fuel)
    (hStay : (a ++ b).drop (b.countP (m.matchesPath asks name)) = [] → a ++ b = []) :
    m.jettisonMessages asks fuel msg name a.length = some (msg.adjust name fun _ =>
      some (.messages ((a ++ b).drop (b.countP (m.matchesPath asks name))))) := by
  induction b generalizing a msg fuel with
  | nil =>
    obtain ⟨fuel, rfl⟩ := Nat.exists_eq_succ_of_ne_zero (Nat.ne_zero_of_lt hFuel)
    rw [jettisonMessages, findMessage_append hArray]
    refine congrArg some (QueuedMessage.adjust_eq_self fun array hOld => ?_).symm
    rw [Option.some.inj (hOld.symm.trans hArray)]
    rfl
  | cons sub b ih =>
    obtain ⟨fuel, rfl⟩ := Nat.exists_eq_succ_of_ne_zero (Nat.ne_zero_of_lt hFuel)
    rw [List.length_cons] at hFuel
    rw [jettisonMessages, findMessage_append hArray, List.head?_cons]
    simp only
    by_cases hMatch : m.matchesPath asks name sub = true
    · rw [if_pos hMatch, removeData_eq _ hArray]
      rw [List.countP_cons_of_pos hMatch] at hStay ⊢
      -- the first item goes, and those that were passed are one place further in front
      have hTail : (a ++ sub :: b).eraseIdx 0 = (a ++ [sub]).tail ++ b := by
        cases a <;> simp
      have hDrop : (a ++ sub :: b).drop (b.countP (m.matchesPath asks name) + 1) =
          ((a ++ [sub]).tail ++ b).drop (b.countP (m.matchesPath asks name)) := by
        rw [← hTail, Nat.add_comm, ← List.drop_drop]
        cases a <;> rfl
      have hLength : ((a ++ [sub]).tail).length = a.length := by simp
      rw [hDrop] at hStay ⊢
      have hSome : (a ++ [sub]).tail ++ b ≠ [] := fun h => by
        rw [h, List.drop_nil] at hStay
        exact List.append_ne_nil_of_right_ne_nil a (List.cons_ne_nil sub b) (hStay rfl)
      have hStays : (DataArray.messages ((a ++ [sub]).tail ++ b) : DataArray Msg).unlessEmpty =
          some (.messages ((a ++ [sub]).tail ++ b)) :=
        if_neg fun h => hSome (List.length_eq_zero_iff.mp h)
      rw [DataArray.removeDataItem, hTail, hStays]
      have hArray' : (msg.adjust name fun _ => some (.messages ((a ++ [sub]).tail ++ b))).getArray name =
          some (.messages ((a ++ [sub]).tail ++ b)) := by
        rw [QueuedMessage.getArray_adjust, hArray]
        rfl
      simp only [hArray', Option.isSome_some, if_true]
      have hNext := ih hArray' (Nat.lt_of_succ_lt_succ hFuel) fun h =>
        absurd (hStay h) (List.append_ne_nil_of_right_ne_nil a (List.cons_ne_nil sub b))
      rw [hLength, QueuedMessage.adjust_adjust] at hNext
      exact hNext
    · rw [if_neg hMatch]
      rw [List.countP_cons_of_neg hMatch] at hStay ⊢
      have hSplit : a ++ sub :: b = a ++ [sub] ++ b := by simp
      rw [hSplit] at hArray hStay ⊢
      have hNext := ih hArray (Nat.lt_of_succ_lt_succ hFuel) hStay
      rw [List.length_append] at hNext
      exact hNext

/-- All sub-messages match, so that the field goes, and its name. -/
theorem jettisonMessages_gone {fuel : Nat} {name : Str} {sub : Option Msg} {b : List (Option Msg)}
    (hArray : msg.getArray name = some (.messages (sub :: b)))
    (hAll : ∀ other ∈ sub :: b, m.matchesPath asks name other = true) :
    m.jettisonMessages asks (fuel + (b.length + 1)) msg name 0 =
      m.jettisonMessages asks fuel (msg.adjust name fun _ => none) [] 0 := by
  induction b generalizing msg sub with
  | nil =>
    have hFound : msg.findMessage name 0 = some sub := findMessage_append (a := []) hArray
    have hGone : ((msg.adjust name fun _ => none).getArray name).isSome = false := by
      rw [QueuedMessage.getArray_adjust, hArray]
      rfl
    rw [← Nat.add_assoc, jettisonMessages, hFound]
    simp only
    rw [if_pos (hAll sub (List.mem_cons_self ..)), removeData_eq _ hArray]
    show m.jettisonMessages asks fuel (msg.adjust name fun _ => none)
      (if ((msg.adjust name fun _ => none).getArray name).isSome then name else []) 0 = _
    rw [hGone]
    rfl
  | cons next b ih =>
    have hFound : msg.findMessage name 0 = some sub := findMessage_append (a := []) hArray
    have hArray' : (msg.adjust name fun _ => some (.messages (next :: b))).getArray name =
        some (.messages (next :: b)) := by
      rw [QueuedMessage.getArray_adjust, hArray]
      rfl
    rw [← Nat.add_assoc, jettisonMessages, hFound]
    simp only
    rw [if_pos (hAll sub (List.mem_cons_self ..)), removeData_eq _ hArray]
    show m.jettisonMessages asks (fuel + (b.length + 1)) (msg.adjust name fun _ => some (.messages (next :: b)))
      (if ((msg.adjust name fun _ => some (.messages (next :: b))).getArray name).isSome then name else []) 0 = _
    rw [hArray', Option.isSome_some, if_pos rfl,
      ih hArray' fun other hOther => hAll other (List.mem_cons_of_mem _ hOther), QueuedMessage.adjust_adjust]
    rfl

theorem dropMatches_gone {name : Str} {items : List (Option Msg)} (hSome : items ≠ [])
    (hNone : items.drop (items.countP (m.matchesPath asks name)) = []) :
    dropMatches asks m name (.messages items) = none ∧ ∀ sub ∈ items, m.matchesPath asks name sub = true := by
  refine ⟨by rw [dropMatches, hNone, stay, if_pos ⟨rfl, hSome⟩]; rfl, fun sub hSub => ?_⟩
  have hCount := Nat.le_antisymm List.countP_le_length (List.drop_eq_nil_iff.mp hNone)
  exact List.countP_eq_length.mp hCount sub hSub

theorem dropMatches_stay {name : Str} {items : List (Option Msg)}
    (hStay : items.drop (items.countP (m.matchesPath asks name)) = [] → items = []) :
    dropMatches asks m name (.messages items) =
      some (.messages (items.drop (items.countP (m.matchesPath asks name)))) := by
  rw [dropMatches, stay, if_neg fun h => h.2 (hStay h.1)]
  rfl

/-- The loop at a name: it goes on with the empty name if the field is gone. -/
theorem jettisonMessages_cases {fuel n : Nat} {name : Str}
    (hItems : ∀ array, msg.getArray name = some array → array.numItems ≤ n) (hFuel : n < fuel) :
    m.jettisonMessages asks fuel msg name 0 = some (msg.adjust name (dropMatches asks m name)) ∨
      (msg.adjust name (dropMatches asks m name)).getArray name = none ∧
        ∃ fuel', fuel ≤ fuel' + n ∧ m.jettisonMessages asks fuel msg name 0 =
          m.jettisonMessages asks fuel' (msg.adjust name (dropMatches asks m name)) [] 0 := by
  have hOther (hNone : msg.findMessage name 0 = none)
      (hSame : ∀ array, msg.getArray name = some array → dropMatches asks m name array = some array) :
      m.jettisonMessages asks fuel msg name 0 = some (msg.adjust name (dropMatches asks m name)) := by
    obtain ⟨fuel, rfl⟩ := Nat.exists_eq_succ_of_ne_zero (Nat.ne_zero_of_lt hFuel)
    rw [jettisonMessages, hNone, QueuedMessage.adjust_eq_self hSame]
  cases hArray : msg.getArray name with
  | none => exact .inl (hOther (by rw [QueuedMessage.findMessage, hArray]) fun array h => by cases hArray.symm.trans h)
  | some array =>
    have hSame : msg.adjust name (dropMatches asks m name) = msg.adjust name fun _ => dropMatches asks m name array :=
      QueuedMessage.adjust_congr fun other h => by rw [Option.some.inj (hArray.symm.trans h)]
    cases array with
    | strings items =>
      refine .inl (hOther (by rw [QueuedMessage.findMessage, hArray]) fun array h => ?_)
      rw [Option.some.inj (h.symm.trans hArray)]
      rfl
    | other type items =>
      refine .inl (hOther (by rw [QueuedMessage.findMessage, hArray]) fun array h => ?_)
      rw [Option.some.inj (h.symm.trans hArray)]
      rfl
    | messages items =>
      have hLength : items.length ≤ n := hItems _ hArray
      by_cases hStay : items.drop (items.countP (m.matchesPath asks name)) = [] → items = []
      · rw [hSame, dropMatches_stay hStay]
        exact .inl (jettisonMessages_stay (a := []) hArray (Nat.lt_of_le_of_lt hLength hFuel) hStay)
      · obtain ⟨hNone, hSome⟩ := Classical.not_imp.mp hStay
        obtain ⟨hDrop, hAll⟩ := dropMatches_gone hSome hNone
        rw [hSame, hDrop]
        refine .inr ⟨by rw [QueuedMessage.getArray_adjust, hArray]; rfl, fuel - items.length, by omega, ?_⟩
        obtain ⟨sub, b, rfl⟩ := List.exists_cons_of_ne_nil hSome
        rw [List.length_cons] at hLength ⊢
        rw [← jettisonMessages_gone hArray hAll, Nat.sub_add_cancel (by omega)]

/-- The loop over the sub-messages of a field. If the field goes, the one with the empty name is looked at too. -/
theorem jettisonMessages_eq (asks : WithoutNode Msg) (m : PathMatcher regex Msg) (msg : QueuedMessage Msg)
    (name : Str) :
    ∃ f, m.jettisonMessages asks (2 * msg.numItems + 1) msg name 0 =
        some ((msg.adjust name (dropMatches asks m name)).adjust [] f) ∧
      (f = some ∨ f = dropMatches asks m []) := by
  have hSelf (msg : QueuedMessage Msg) : msg.adjust [] some = msg := QueuedMessage.adjust_eq_self fun _ _ => rfl
  rcases jettisonMessages_cases (fun array h => QueuedMessage.numItems_le h)
      (show msg.numItems < 2 * msg.numItems + 1 by omega) with hDone | ⟨hNone, fuel, hFuel, hRun⟩
  · exact ⟨some, by rw [hDone, hSelf], .inl rfl⟩
  refine ⟨dropMatches asks m [], ?_, .inr rfl⟩
  have hItems : ∀ array, (msg.adjust name (dropMatches asks m name)).getArray [] = some array →
      array.numItems ≤ msg.numItems := by
    intro array hArray
    by_cases hName : name = []
    · rw [hName] at hNone hArray
      cases hNone.symm.trans hArray
    · rw [QueuedMessage.getArray_adjust_ne _ _ (Ne.symm hName)] at hArray
      exact QueuedMessage.numItems_le hArray
  rw [hRun]
  rcases jettisonMessages_cases hItems (show msg.numItems < fuel by omega) with hDone | ⟨hNone', fuel', hFuel', hRun'⟩
  · exact hDone
  · obtain ⟨fuel', rfl⟩ := Nat.exists_eq_succ_of_ne_zero (show fuel' ≠ 0 by omega)
    rw [hRun', jettisonMessages, QueuedMessage.findMessage, hNone']

/-- The loop over the fields, for a matcher that has filters. -/
theorem jettisonFields_eq (asks : WithoutNode Msg) (hFilters : 0 < m.numFilters) {names : List Str}
    (hNodup : names.Nodup) (msg : QueuedMessage Msg) :
    ∃ n, m.jettisonFields asks names msg = some (msg.mapEntries fun name =>
        if name = [] then tries (dropMatches asks m []) n
        else if name ∈ names then dropMatches asks m name else some) ∧ ([] ∈ names → 0 < n) := by
  induction names generalizing msg with
  | nil =>
    refine ⟨0, congrArg some ?_, fun h => absurd h List.not_mem_nil⟩
    refine (msg.mapEntries_some.symm.trans (QueuedMessage.mapEntries_congr fun name array _ => ?_))
    by_cases hName : name = []
    · rw [if_pos hName]
      rfl
    · rw [if_neg hName, if_neg List.not_mem_nil]
  | cons name names ih =>
    rw [List.nodup_cons] at hNodup
    have hStep : ∃ k, m.jettisonFields asks (name :: names) msg = m.jettisonFields asks names
        ((msg.adjust name (dropMatches asks m name)).adjust [] (tries (dropMatches asks m []) k)) := by
      have hPassed (hSame : ∀ array, msg.getArray name = some array → dropMatches asks m name array = some array) :
          (msg.adjust name (dropMatches asks m name)).adjust [] (tries (dropMatches asks m []) 0) = msg := by
        rw [QueuedMessage.adjust_eq_self hSame]
        exact QueuedMessage.adjust_eq_self fun _ _ => rfl
      rw [jettisonFields]
      split
      · rw [if_pos hFilters]
        obtain ⟨f, hRun, rfl | rfl⟩ := jettisonMessages_eq asks m msg name
        · exact ⟨0, by rw [hRun]; rfl⟩
        · refine ⟨1, ?_⟩
          have hOnce : tries (dropMatches asks m []) 1 = dropMatches asks m [] :=
            funext fun array => Option.bind_fun_some _
          rw [hRun, hOnce]
          rfl
      · rename_i hOther
        refine ⟨0, (congrArg _ (hPassed fun array hArray => ?_)).symm⟩
        cases array with
        | messages items => exact absurd hArray (hOther items)
        | strings items => rfl
        | other type items => rfl
    obtain ⟨k, hStep⟩ := hStep
    obtain ⟨n, hRun, hPos⟩ := ih hNodup.2
      ((msg.adjust name (dropMatches asks m name)).adjust [] (tries (dropMatches asks m []) k))
    refine ⟨(if name = [] then 1 else 0) + (k + n), ?_, fun hMem => ?_⟩
    · rw [hStep, hRun, QueuedMessage.adjust, QueuedMessage.adjust, QueuedMessage.mapEntries_mapEntries,
        QueuedMessage.mapEntries_mapEntries]
      refine congrArg some (QueuedMessage.mapEntries_congr fun other array _ => ?_)
      by_cases hEmpty : other = []
      · subst hEmpty
        by_cases hName : name = []
        · subst hName
          simp only [if_true]
          rw [tries_add, tries, Option.bind_assoc]
          refine congrArg _ (funext fun array => ?_)
          rw [tries, Option.bind_some, tries_add]
        · simp only [if_true, if_neg hName, if_neg (Ne.symm hName), Option.bind_some, Nat.zero_add, tries_add]
      · simp only [if_neg hEmpty, Option.bind_some]
        by_cases hOther : other = name
        · subst hOther
          simp only [if_true, if_neg hNodup.1, if_pos (List.mem_cons_self ..)]
          cases dropMatches asks m other array <;> rfl
        · simp only [if_neg hOther, Option.bind_some, List.mem_cons, or_iff_right hOther]
    · rcases List.mem_cons.mp hMem with hHere | hLater
      · rw [if_pos hHere.symm]
        omega
      · have hRest := hPos hLater
        omega

/-- A field of sub-messages goes as a whole. -/
def dropWhole (asks : WithoutNode Msg) (m : PathMatcher regex Msg) (name : Str) :
    DataArray Msg → Option (DataArray Msg)
  | .messages items => if m.matchesPath asks name none then none else some (.messages items)
  | array => some array

/-- The loop over the fields, for a matcher without filters. -/
theorem jettisonFields_whole (hFilters : m.numFilters = 0) {names : List Str} (hNodup : names.Nodup)
    (msg : QueuedMessage Msg) :
    m.jettisonFields asks names msg =
      some (msg.mapEntries fun name => if name ∈ names then dropWhole asks m name else some) := by
  induction names generalizing msg with
  | nil =>
    refine congrArg some (msg.mapEntries_some.symm.trans (QueuedMessage.mapEntries_congr fun name array _ => ?_))
    rw [if_neg List.not_mem_nil]
  | cons name names ih =>
    rw [List.nodup_cons] at hNodup
    have hStep : m.jettisonFields asks (name :: names) msg =
        m.jettisonFields asks names (msg.adjust name (dropWhole asks m name)) := by
      have hPassed (hSame : ∀ array, msg.getArray name = some array → dropWhole asks m name array = some array) :
          m.jettisonFields asks names msg = m.jettisonFields asks names (msg.adjust name (dropWhole asks m name)) := by
        rw [QueuedMessage.adjust_eq_self hSame]
      rw [jettisonFields]
      split
      · rename_i items hArray
        rw [if_neg (by omega)]
        by_cases hMatch : m.matchesPath asks name none = true
        · rw [if_pos hMatch, QueuedMessage.removeName]
          refine congrArg _ (QueuedMessage.adjust_congr fun array hOld => ?_)
          rw [Option.some.inj (hOld.symm.trans hArray), dropWhole, if_pos hMatch]
        · rw [if_neg hMatch]
          refine hPassed fun array hOld => ?_
          rw [Option.some.inj (hOld.symm.trans hArray), dropWhole, if_neg hMatch]
      · rename_i hOther
        refine hPassed fun array hArray => ?_
        cases array with
        | messages items => exact absurd hArray (hOther items)
        | strings items => rfl
        | other type items => rfl
    rw [hStep, ih hNodup.2, QueuedMessage.adjust, QueuedMessage.mapEntries_mapEntries]
    refine congrArg some (QueuedMessage.mapEntries_congr fun other array _ => ?_)
    by_cases hOther : other = name
    · subst hOther
      simp only [if_true, if_neg hNodup.1, if_pos (List.mem_cons_self ..)]
      exact Option.bind_fun_some _
    · simp only [if_neg hOther, Option.bind_some, List.mem_cons, or_iff_right hOther]

end PathMatcher

end BeShare.Muscle.Reflect
