import Mathlib

namespace CarbideOS.Agent

/-- Bounded so a long-lived node cannot grow the history without limit. -/
def completedRequestHistory : Nat := 64

inductive Phase where
  | idle | staged | activating | starting | soaking | active
  | reverting | recovered | removing | unrecoverable
  deriving DecidableEq, Repr

/-- A phase the agent should not automatically retry out of. -/
def Phase.isTerminal : Phase → Bool
  | .unrecoverable => true
  | _ => false

/-- The name of a phase in a failure message. -/
def Phase.debug : Phase → String
  | .idle => "Idle"
  | .staged => "Staged"
  | .activating => "Activating"
  | .starting => "Starting"
  | .soaking => "Soaking"
  | .active => "Active"
  | .reverting => "Reverting"
  | .recovered => "Recovered"
  | .removing => "Removing"
  | .unrecoverable => "Unrecoverable"

structure ExtensionState where
  required : Bool := false
  activeVersion : Option String := none
  knownGoodVersion : Option String := none
  candidateVersion : Option String := none
  phase : Phase := .idle
  requestId : Option String := none
  lastHealth : Option String := none
  lastFailure : Option String := none
  /-- The base image that was running when a terminal phase was recorded. -/
  terminalOsVersion : Option String := none
  completedRequests : List String := []
  deriving DecidableEq, Repr

namespace ExtensionState

def alreadyCompleted (e : ExtensionState) (requestId : String) : Bool :=
  e.completedRequests.contains requestId

/-- Newest last; the oldest make room once the history is full. -/
def recordCompleted (e : ExtensionState) (requestId : String) : ExtensionState :=
  if e.completedRequests.contains requestId then e
  else
    let requests := e.completedRequests ++ [requestId]
    { e with completedRequests := requests.drop (requests.length - completedRequestHistory) }

end ExtensionState

/-- The record of one node. Iteration is in the order of names. -/
structure State where
  extensions : Std.ExtTreeMap String ExtensionState := ∅

namespace State

def get (s : State) (name : String) : Option ExtensionState := s.extensions[name]?

/-- Change the entry of a name, starting from a blank one if it has none. -/
def entry (s : State) (name : String) (f : ExtensionState → ExtensionState) : State :=
  { s with extensions := s.extensions.insert name (f ((s.get name).getD {})) }

/-- Extensions this node is supposed to have. -/
def required (s : State) : List String :=
  (s.extensions.toList.filter fun p => p.2.required).map Prod.fst

/-- A refusal is stale when another base image was running at the time. -/
def isStaleTerminal (current : String) (e : ExtensionState) : Bool :=
  e.phase.isTerminal && e.terminalOsVersion != some current

def forgetTerminal (e : ExtensionState) : ExtensionState :=
  { e with phase := .idle, lastFailure := none, terminalOsVersion := none }

/-- Forget refusals that belong to a base image no longer running, and name them. -/
def forgetStaleTerminals (s : State) (current : String) : State × List String :=
  let cleared := (s.extensions.toList.filter fun p => isStaleTerminal current p.2).map Prod.fst
  (cleared.foldl (fun s name => s.entry name forgetTerminal) s, cleared)

@[ext] theorem ext {s t : State} (h : ∀ name, s.get name = t.get name) : s = t := by
  cases s
  cases t
  simp only [mk.injEq]
  exact Std.ExtTreeMap.ext_getElem? h

@[simp] theorem get_entry_self (s : State) (name : String) (f : ExtensionState → ExtensionState) :
    (s.entry name f).get name = some (f ((s.get name).getD {})) := by
  simp [entry, get]

theorem get_entry (s : State) (name other : String) (f : ExtensionState → ExtensionState) :
    (s.entry name f).get other =
      if name = other then some (f ((s.get name).getD {})) else s.get other := by
  simp only [entry, get, Std.ExtTreeMap.getElem?_insert]
  split <;> rename_i h <;> simp at h <;> simp [h]

@[simp] theorem get_entry_of_ne {s : State} {name other : String} (h : other ≠ name)
    (f : ExtensionState → ExtensionState) : (s.entry name f).get other = s.get other := by
  rw [get_entry, if_neg (Ne.symm h)]

theorem mem_required {s : State} {name : String} :
    name ∈ s.required ↔ ∃ e, s.get name = some e ∧ e.required = true := by
  simp only [required, List.mem_map, List.mem_filter, Prod.exists, exists_and_right,
    exists_eq_right, Std.ExtTreeMap.mem_toList_iff_getElem?_eq_some, get]

/-- Forgetting touches exactly the stale refusals. -/
theorem get_forget (s : State) (current name : String) :
    (s.forgetStaleTerminals current).1.get name =
      (s.get name).map fun e => if isStaleTerminal current e then forgetTerminal e else e := by
  have fold : ∀ (names : List String) (t : State), names.Nodup →
      (names.foldl (fun s name => s.entry name forgetTerminal) t).get name =
        if name ∈ names then some (forgetTerminal ((t.get name).getD {})) else t.get name := by
    intro names
    induction names with
    | nil => intro t _; simp
    | cons n ns ih =>
      intro t hn
      obtain ⟨hnot, hn⟩ := List.nodup_cons.mp hn
      rw [List.foldl_cons, ih _ hn]
      by_cases he : name = n
      · subst he
        simp [hnot]
      · simp [he]
  unfold forgetStaleTerminals
  rw [fold]
  · cases hg : s.get name with
    | none =>
      rw [if_neg]
      · rfl
      · simp only [List.mem_map, List.mem_filter, Prod.exists, exists_and_right, exists_eq_right,
          Std.ExtTreeMap.mem_toList_iff_getElem?_eq_some, not_exists, not_and]
        intro e he
        simp [get, he] at hg
    | some e =>
      have hm : name ∈ (s.extensions.toList.filter fun p => isStaleTerminal current p.2).map
          Prod.fst ↔ isStaleTerminal current e = true := by
        simp only [List.mem_map, List.mem_filter, Prod.exists, exists_and_right, exists_eq_right,
          Std.ExtTreeMap.mem_toList_iff_getElem?_eq_some]
        rw [get] at hg
        simp [hg]
      simp only [hm, Option.getD_some, Option.map_some]
      split <;> rfl
  · have hs := (Std.ExtTreeMap.distinct_keys_toList (t := s.extensions)).filter
      fun p => isStaleTerminal current p.2
    rw [List.Nodup, List.pairwise_map]
    exact hs.imp fun h he => h (by simp [he])

end State
end CarbideOS.Agent
