import BeShare.Reflect.Session

/-!
The table of subscriptions against the parameters that ask for them, over all histories of the two commands.
-/

namespace BeShare.Muscle.Reflect

variable {regex : Regex} {Msg : Type}

namespace Session

variable {s s' : Session regex Msg} {key name : Str} {names keys : List Str}

/-- The subscriptions are those that the parameters ask for. -/
def InStep (s : Session regex Msg) : Prop :=
  ∀ key, (s.subscriptions.get key).isSome = true ↔
    ∃ name ∈ s.parameters, subscriptionPath name = some key

/-- All subscriptions in a message have paths that make a pattern. -/
def ValidFields (regex : Regex) (fields : List (Field Msg)) : Prop :=
  ∀ f ∈ fields, ∀ key, subscriptionPath f.name = some key → (parsePath regex key).isSome = true

/-- Whenever one parameter of a subscription is selected, all its spellings are. -/
def AllSpellings (s : Session regex Msg) (keys : List Str) : Prop :=
  ∀ name ∈ s.toRemove keys, ∀ other ∈ s.parameters, ∀ key, subscriptionPath name = some key →
    subscriptionPath other = some key → other ∈ s.toRemove keys

/-- In each removal of a run, a subscription loses all its parameters or none. -/
def RemovesAllSpellings (s : Session regex Msg) : List (ParameterCommand Msg) → Prop
  | [] => True
  | .setParameters fields :: rest => RemovesAllSpellings (s.exec (.setParameters fields)) rest
  | .removeParameters keys :: rest =>
    s.AllSpellings keys ∧ RemovesAllSpellings (s.exec (.removeParameters keys)) rest

/-- The messages of a run that set subscriptions have valid patterns. -/
def ValidCommands (regex : Regex) (commands : List (ParameterCommand Msg)) : Prop :=
  ∀ fields, .setParameters fields ∈ commands → ValidFields regex fields

/-! ### Setting -/

theorem mem_copyName {parameters : List Str} : name ∈ copyName key parameters ↔ name = key ∨ name ∈ parameters := by
  unfold copyName
  split
  · rename_i hOld
    refine ⟨.inr, fun h => h.elim ?_ fun h => h⟩
    rintro rfl
    exact hOld
  · rw [List.mem_append, List.mem_singleton]
    exact or_comm

theorem subscribeTo_spec (s : Session regex Msg) (filter : Option (QueryFilter Msg))
    (hValid : (parsePath regex key).isSome = true) :
    (s.subscribeTo key filter).1.parameters = s.parameters ∧
      ∀ k, ((s.subscribeTo key filter).1.subscriptions.get k).isSome = true ↔
        k = key ∨ (s.subscriptions.get k).isSome = true := by
  unfold subscribeTo
  split
  · rename_i e hOld
    have hSame : ∀ k, (s.subscriptions.get k).isSome = true ↔
        k = key ∨ (s.subscriptions.get k).isSome = true := by
      refine fun k => ⟨.inr, fun h => h.elim ?_ fun h => h⟩
      rintro rfl
      rw [hOld]
      rfl
    split
    · exact ⟨rfl, hSame⟩
    · exact ⟨rfl, hSame⟩
  · rename_i hNew
    split
    · rename_i subscriptions hPut
      obtain ⟨⟨parser, hParsed, hGet⟩, hOther⟩ := PathMatcher.get_putPathString hPut
      refine ⟨rfl, fun k => ?_⟩
      by_cases hk : k = key
      · subst hk
        exact iff_of_true (congrArg Option.isSome hGet) (.inl rfl)
      · show (subscriptions.get k).isSome = true ↔ _
        rw [hOther k hk]
        simp [hk]
    · rename_i hFail
      have hPut : (s.subscriptions.putPathString key filter).isSome = (parsePath regex key).isSome :=
        PathMatcher.putPathString_isSome
      rw [hFail, hValid] at hPut
      cases hPut

theorem setParameter_inStep {f : Field Msg} (h : s.InStep)
    (hValid : ∀ key, subscriptionPath f.name = some key → (parsePath regex key).isSome = true) :
    (s.setParameter f).1.InStep := by
  have hCopy : subscriptionPath f.name = none → ∀ key,
      (∃ name ∈ copyName f.name s.parameters, subscriptionPath name = some key) ↔
        ∃ name ∈ s.parameters, subscriptionPath name = some key := by
    intro hNone key
    refine exists_congr fun name => ?_
    rw [mem_copyName]
    refine ⟨fun h => ⟨h.1.resolve_left ?_, h.2⟩, fun h => ⟨.inr h.1, h.2⟩⟩
    rintro rfl
    rw [hNone] at h
    cases h.2
  unfold setParameter
  split
  · rename_i fixPath hPath
    obtain ⟨hParameters, hKeys⟩ := subscribeTo_spec s f.filter (hValid fixPath hPath)
    intro key
    show ((s.subscribeTo fixPath f.filter).1.subscriptions.get key).isSome = true ↔
      ∃ name ∈ copyName f.name (s.subscribeTo fixPath f.filter).1.parameters, subscriptionPath name = some key
    rw [hKeys, hParameters, h key]
    constructor
    · rintro (rfl | ⟨name, hName, hSame⟩)
      · exact ⟨f.name, mem_copyName.mpr (.inl rfl), hPath⟩
      · exact ⟨name, mem_copyName.mpr (.inr hName), hSame⟩
    · rintro ⟨name, hName, hSame⟩
      rcases mem_copyName.mp hName with rfl | hName
      · rw [hPath] at hSame
        exact .inl (Option.some.inj hSame).symm
      · exact .inr ⟨name, hName, hSame⟩
  · rename_i hNone
    split
    · exact fun key => (h key).trans (hCopy hNone key).symm
    · split
      · exact fun key => (h key).trans (hCopy hNone key).symm
      · split
        · exact fun key => (h key).trans (hCopy hNone key).symm
        · split
          · exact h
          · exact fun key => (h key).trans (hCopy hNone key).symm

theorem setParameters_inStep {fields : List (Field Msg)} (h : s.InStep) (hValid : ValidFields regex fields) :
    (s.exec (.setParameters fields)).InStep := by
  unfold exec
  induction fields generalizing s with
  | nil => exact h
  | cons f fields ih =>
    exact ih (setParameter_inStep h (hValid f (List.mem_cons_self ..)))
      fun g hg => hValid g (List.mem_cons_of_mem _ hg)

/-! ### Removing -/

theorem removeParameter_spec (s : Session regex Msg) (name : Str) :
    (s.removeParameter name).1.parameters = s.parameters.filter (· ≠ name) ∧
      ∀ key, ((s.removeParameter name).1.subscriptions.get key).isSome = true ↔
        (s.subscriptions.get key).isSome = true ∧ ¬(name ∈ s.parameters ∧ subscriptionPath name = some key) := by
  unfold removeParameter
  by_cases hIn : name ∈ s.parameters
  · rw [if_pos hIn]
    dsimp only
    split
    · rename_i str hPath
      have hSame : ∀ key, (name ∈ s.parameters ∧ some str = some key) ↔ key = str := fun key =>
        ⟨fun h => (Option.some.inj h.2).symm, fun h => ⟨hIn, congrArg some h.symm⟩⟩
      split
      · rename_i subscriptions hRemove
        obtain ⟨hGone, hOther⟩ := PathMatcher.get_removePathString hRemove
        refine ⟨rfl, fun key => ?_⟩
        rw [hPath, hSame]
        by_cases hk : key = str
        · subst hk
          exact iff_of_false (by simp [hGone]) fun h => h.2 rfl
        · show (subscriptions.get key).isSome = true ↔ _
          rw [hOther key hk]
          simp [hk]
      · rename_i hRemove
        have hGone := PathMatcher.get_eq_none_of_removePathString hRemove
        refine ⟨rfl, fun key => ?_⟩
        rw [hPath, hSame]
        by_cases hk : key = str
        · subst hk
          exact iff_of_false (by simp [hGone]) fun h => h.2 rfl
        · simp [hk]
    · rename_i hNone
      have hSame : ∀ key, (s.subscriptions.get key).isSome = true ↔
          (s.subscriptions.get key).isSome = true ∧
            ¬(name ∈ s.parameters ∧ subscriptionPath name = some key) := by
        intro key
        rw [hNone]
        simp
      split
      · exact ⟨rfl, hSame⟩
      · split
        · exact ⟨rfl, hSame⟩
        · split
          · exact ⟨rfl, hSame⟩
          · exact ⟨rfl, hSame⟩
  · rw [if_neg hIn]
    refine ⟨(List.filter_eq_self.mpr fun other hOther => ?_).symm, fun key => by simp [hIn]⟩
    rw [decide_eq_true_iff]
    rintro rfl
    exact hIn hOther

theorem removeNames_spec (names : List Str) (s : Session regex Msg) :
    let s' := names.foldl (fun s name => (s.removeParameter name).1) s
    s'.parameters = s.parameters.filter (· ∉ names) ∧
      ∀ key, (s'.subscriptions.get key).isSome = true ↔ (s.subscriptions.get key).isSome = true ∧
        ∀ name ∈ names, name ∈ s.parameters → subscriptionPath name ≠ some key := by
  induction names generalizing s with
  | nil => simp
  | cons name names ih =>
    obtain ⟨hParameters, hKeys⟩ := removeParameter_spec s name
    obtain ⟨hRest, hRestKeys⟩ := ih (s.removeParameter name).1
    refine ⟨?_, fun key => ?_⟩
    · rw [List.foldl_cons, hRest, hParameters, List.filter_filter]
      refine List.filter_congr fun other _ => ?_
      by_cases hSame : other = name <;> simp [hSame]
    · rw [List.foldl_cons, hRestKeys, hKeys, hParameters, List.forall_mem_cons, and_assoc]
      refine and_congr_right fun _ => ⟨fun h => ⟨fun hIn hPath => h.1 ⟨hIn, hPath⟩, ?_⟩, fun h => ⟨?_, ?_⟩⟩
      · intro other hOther hIn hPath
        by_cases hSame : other = name
        · subst hSame
          exact h.1 ⟨hIn, hPath⟩
        · exact h.2 other hOther (List.mem_filter.mpr ⟨hIn, by simpa using hSame⟩) hPath
      · exact fun hBoth => h.1 hBoth.1 hBoth.2
      · exact fun other hOther hIn => h.2 other hOther (List.mem_filter.mp hIn).1

theorem mem_parameters_of_toRemove (h : name ∈ s.toRemove keys) : name ∈ s.parameters := by
  unfold toRemove at h
  obtain ⟨key, -, h⟩ := List.mem_flatMap.mp h
  split at h
  · exact (List.mem_filter.mp h).1
  · cases h

/-- A removal keeps the tables in step exactly if it removes all spellings. -/
theorem removeParameters_inStep_iff (h : s.InStep) :
    (s.exec (.removeParameters keys)).InStep ↔ s.AllSpellings keys := by
  obtain ⟨hParameters, hKeys⟩ := removeNames_spec (s.toRemove keys).reverse s
  have hLeft : ∀ key, ((s.exec (.removeParameters keys)).subscriptions.get key).isSome = true ↔
      (∃ name ∈ s.parameters, subscriptionPath name = some key) ∧
        ∀ name ∈ s.toRemove keys, subscriptionPath name ≠ some key := by
    intro key
    refine (hKeys key).trans (and_congr (h key) ?_)
    simp only [List.mem_reverse]
    exact forall_congr' fun name => imp_congr_right fun hName =>
      ⟨fun hNe => hNe (mem_parameters_of_toRemove hName), fun hNe _ => hNe⟩
  have hAsked : ∀ name, name ∈ (s.exec (.removeParameters keys)).parameters ↔
      name ∈ s.parameters ∧ name ∉ s.toRemove keys := by
    intro name
    have hMem : name ∈ (s.exec (.removeParameters keys)).parameters ↔
        name ∈ s.parameters.filter (· ∉ (s.toRemove keys).reverse) := by
      rw [← hParameters]
      rfl
    rw [hMem, List.mem_filter]
    simp
  constructor
  · intro hAfter name hName other hOther key hPath hPathOther
    by_contra hNot
    have hSome := (hAfter key).mpr ⟨other, (hAsked other).mpr ⟨hOther, hNot⟩, hPathOther⟩
    exact ((hLeft key).mp hSome).2 name hName hPath
  · intro hAll key
    rw [hLeft key]
    constructor
    · rintro ⟨⟨name, hName, hPath⟩, hNone⟩
      exact ⟨name, (hAsked name).mpr ⟨hName, fun hRemoved => hNone name hRemoved hPath⟩, hPath⟩
    · rintro ⟨name, hName, hPath⟩
      obtain ⟨hIn, hKept⟩ := (hAsked name).mp hName
      exact ⟨⟨name, hIn, hPath⟩, fun other hOther hPathOther =>
        hKept (hAll other hOther name hIn key hPathOther hPath)⟩

/-! ### Runs -/

/-- The two tables are in step in all states of a run exactly if each of its removals removes all spellings of
the subscriptions that it touches. -/
theorem run_inStep_iff {commands : List (ParameterCommand Msg)} (h : s.InStep)
    (hValid : ValidCommands regex commands) :
    (∀ done rest, done ++ rest = commands → (s.run done).InStep) ↔ s.RemovesAllSpellings commands := by
  induction commands generalizing s with
  | nil =>
    refine iff_of_true (fun done rest hSplit => ?_) trivial
    rw [(List.append_eq_nil_iff.mp hSplit).1]
    exact h
  | cons command commands ih =>
    have hValidRest : ValidCommands regex commands := fun fields hFields =>
      hValid fields (List.mem_cons_of_mem _ hFields)
    have hStep : (∀ done rest, done ++ rest = command :: commands → (s.run done).InStep) ↔
        (s.exec command).InStep ∧
          ∀ done rest, done ++ rest = commands → ((s.exec command).run done).InStep := by
      constructor
      · intro hAll
        exact ⟨hAll [command] commands rfl, fun done rest hSplit =>
          hAll (command :: done) rest (congrArg (command :: ·) hSplit)⟩
      · rintro ⟨-, hAll⟩ done rest hSplit
        cases done with
        | nil => exact h
        | cons first done =>
          obtain ⟨rfl, hRest⟩ := List.cons.inj hSplit
          exact hAll done rest hRest
    rw [hStep]
    cases command with
    | setParameters fields =>
      have hNext := setParameters_inStep h (hValid fields (List.mem_cons_self ..))
      exact (and_iff_right hNext).trans (ih hNext hValidRest)
    | removeParameters keys =>
      refine (and_congr_left fun hAll => removeParameters_inStep_iff h).trans (and_congr_right fun hSpellings => ?_)
      exact ih ((removeParameters_inStep_iff h).mpr hSpellings) hValidRest

/-- A session that was just attached to the server. -/
def attached (regex : Regex) (Msg : Type) (sessionID : Str) (privileged : Bool) : Session regex Msg where
  id := sessionID
  subscriptions := PathMatcher.empty
  parameters := if privileged then [PR_NAME_PRIVILEGE_BITS] else []
  reflectToSelf := false
  subscriptionsEnabled := true
  maxSubscriptionMessageItems := DEFAULT_MAX_SUBSCRIPTION_MESSAGE_SIZE
  nextSubscriptionMessage := none
  sent := []

theorem attached_inStep (sessionID : Str) (privileged : Bool) :
    (attached regex Msg sessionID privileged).InStep := by
  intro key
  refine iff_of_false (by simp [attached, PathMatcher.get, PathMatcher.empty]) ?_
  rintro ⟨name, hName, hPath⟩
  cases privileged
  · cases hName
  · obtain rfl := List.mem_singleton.mp hName
    exact absurd hPath (by simp [subscriptionPath, PR_NAME_PRIVILEGE_BITS, PR_NAME_SUBSCRIBE_PREFIX])

/-- Subscriptions follow the parameters through every run exactly if no removal leaves another spelling of what
it removes. -/
theorem subscriptions_follow_parameters_iff (regex : Regex) (sessionID : Str) (privileged : Bool)
    (commands : List (ParameterCommand Msg)) (hValid : ValidCommands regex commands) :
    (∀ done rest, done ++ rest = commands → ((attached regex Msg sessionID privileged).run done).InStep) ↔
      (attached regex Msg sessionID privileged).RemovesAllSpellings commands :=
  run_inStep_iff (attached_inStep sessionID privileged) hValid

/-! ### Two spellings -/

/-- Each expression matches the text that it was made from. -/
def sameText : Regex :=
  ⟨fun expression => some fun str => decide (anchored str = expression)⟩

def relativeX : Str := PR_NAME_SUBSCRIBE_PREFIX ++ ['x']

def absoluteX : Str := PR_NAME_SUBSCRIBE_PREFIX ++ ['/', '*', '/', '*', '/', 'x']

/-- A client subscribes to `x` and to its other spelling, and takes back the first one. -/
def takeBackX : List (ParameterCommand Nat) :=
  [.setParameters [⟨relativeX, none, none⟩, ⟨absoluteX, none, none⟩], .removeParameters [relativeX]]

theorem takeBackX_valid : ValidCommands sameText takeBackX := by
  intro fields hFields f hf key hKey
  rcases List.mem_cons.mp hFields with hSet | hFields
  · obtain rfl := ParameterCommand.setParameters.inj hSet
    rcases List.mem_cons.mp hf with rfl | hf
    · cases hKey
      decide
    · obtain rfl := List.mem_singleton.mp hf
      cases hKey
      decide
  · cases List.mem_singleton.mp hFields

/-- The absolute spelling still is a parameter, but its subscription is gone. -/
theorem takeBackX_cancels : ValidCommands sameText takeBackX ∧
    ¬((attached sameText Nat ['5'] false).run takeBackX).InStep := by
  refine ⟨takeBackX_valid, fun h => ?_⟩
  have hSome := (h ['*', '/', '*', '/', 'x']).mpr ⟨absoluteX, by decide, by decide⟩
  revert hSome
  decide

theorem subscriptions_follow_parameters_takeBackX :
    (∀ done rest, done ++ rest = takeBackX → ((attached sameText Nat ['5'] false).run done).InStep) ↔
      (attached sameText Nat ['5'] false).RemovesAllSpellings takeBackX :=
  subscriptions_follow_parameters_iff sameText ['5'] false takeBackX takeBackX_valid

end Session

end BeShare.Muscle.Reflect
