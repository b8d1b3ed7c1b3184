import BeShare.Hashtable.Invariant

/-!
What `Hashtable` is for: a list of items with distinct keys in the order of insertion. `equal` is the
comparison of keys.
-/

namespace BeShare.Muscle.Hashtable.Assoc

variable {K V : Type} (equal : K → K → Bool)

/-- The item with the given key. -/
def find (key : K) (l : List (K × V)) : Option (K × V) := l.find? fun item => equal item.1 key

def get (key : K) (l : List (K × V)) : Option V := (find equal key l).map Prod.snd

/-- The list without the given key. -/
def without (key : K) (l : List (K × V)) : List (K × V) := l.filter fun item => !equal item.1 key

/-- A new key goes to the end; the value of an old one is replaced and returned. -/
def put (key : K) (value : V) (l : List (K × V)) : List (K × V) × Option V :=
  match find equal key l with
  | some old => (l.map fun item => if equal item.1 key then (item.1, value) else item, some old.2)
  | none => (l ++ [(key, value)], none)

def remove (key : K) (l : List (K × V)) : List (K × V) × Option V :=
  (without equal key l, get equal key l)

def moveToFront (key : K) (l : List (K × V)) : List (K × V) × Bool :=
  match find equal key l with
  | some item => (item :: without equal key l, true)
  | none => (l, false)

def moveToBack (key : K) (l : List (K × V)) : List (K × V) × Bool :=
  match find equal key l with
  | some item => (without equal key l ++ [item], true)
  | none => (l, false)

/-- The item goes in front of the one with the other key. -/
def moveToBefore (key other : K) (l : List (K × V)) : List (K × V) × Bool :=
  match find equal key l, find equal other l with
  | some item, some _ =>
    if equal key other then (l, false)
    else
      let rest := without equal key l
      (rest.takeWhile (fun i => !equal i.1 other) ++ item :: rest.dropWhile fun i => !equal i.1 other,
        true)
  | _, _ => (l, false)

/-- The item goes behind the one with the other key. -/
def moveToBehind (key other : K) (l : List (K × V)) : List (K × V) × Bool :=
  match find equal key l, find equal other l with
  | some item, some otherItem =>
    if equal key other then (l, false)
    else
      let rest := without equal key l
      (rest.takeWhile (fun i => !equal i.1 other) ++ otherItem :: item ::
        (rest.dropWhile fun i => !equal i.1 other).tail, true)
  | _, _ => (l, false)

/-- Items with equal keys (or values) keep their order. -/
def sortByKey (func : K → K → Int) (l : List (K × V)) : List (K × V) :=
  l.mergeSort fun a b => decide (func a.1 b.1 ≤ 0)

def sortByValue (func : V → V → Int) (l : List (K × V)) : List (K × V) :=
  l.mergeSort fun a b => decide (func a.2 b.2 ≤ 0)

theorem without_missing {equal : K → K → Bool} {key : K} {l : List (K × V)} (h : find equal key l = none) :
    without equal key l = l := by
  rw [find, List.find?_eq_none] at h
  exact List.filter_eq_self.mpr fun item hItem => by rw [Bool.eq_false_iff.mpr (h item hItem)]; rfl

/-! ### Lists in which one item has the key -/

section

variable {equal} {key : K} {a b : List (K × V)} {item : K × V}

/-- `item` is the only one with the key. -/
structure Only (equal : K → K → Bool) (key : K) (a : List (K × V)) (item : K × V) (b : List (K × V)) :
    Prop where
  here : equal item.1 key = true
  before : ∀ i ∈ a, equal i.1 key = false
  behind : ∀ i ∈ b, equal i.1 key = false

variable (h : Only equal key a item b)
include h

theorem Only.find_eq : find equal key (a ++ item :: b) = some item := by
  have hNone : a.find? (fun i => equal i.1 key) = none := by
    simpa [List.find?_eq_none] using fun i j hMem => h.before (i, j) hMem
  rw [find, List.find?_append, hNone, Option.none_or, List.find?_cons, h.here]

theorem Only.without_eq : without equal key (a ++ item :: b) = a ++ b := by
  have hA : a.filter (fun i => !equal i.1 key) = a :=
    List.filter_eq_self.mpr fun i hi => by rw [h.before i hi]; rfl
  have hB : b.filter (fun i => !equal i.1 key) = b :=
    List.filter_eq_self.mpr fun i hi => by rw [h.behind i hi]; rfl
  rw [without, List.filter_append, hA, List.filter_cons_of_neg (by simp [h.here]), hB]

theorem Only.takeWhile_eq : (a ++ item :: b).takeWhile (fun i => !equal i.1 key) = a := by
  rw [List.takeWhile_append_of_pos fun i hi => by rw [h.before i hi]; rfl]
  simp [h.here]

theorem Only.dropWhile_eq :
    (a ++ item :: b).dropWhile (fun i => !equal i.1 key) = item :: b := by
  rw [List.dropWhile_append_of_pos fun i hi => by rw [h.before i hi]; rfl]
  simp [h.here]

theorem Only.put_eq (value : V) :
    put equal key value (a ++ item :: b) = (a ++ (item.1, value) :: b, some item.2) := by
  have hMap : ∀ l : List (K × V), (∀ i ∈ l, equal i.1 key = false) →
      l.map (fun i => if equal i.1 key then (i.1, value) else i) = l := by
    intro l hl
    refine (List.map_congr_left fun i hi => ?_).trans (List.map_id l)
    rw [hl i hi]
    rfl
  rw [put, h.find_eq, List.map_append, List.map_cons, hMap a h.before, hMap b h.behind, if_pos h.here]

end

end BeShare.Muscle.Hashtable.Assoc
