import Mathlib.Logic.Function.Basic
import Mathlib.Tactic.Common

/-! # Remembered searches

A search is run once for each key and its results are remembered, unless there are none. If the key
determines the results, looking a key up gives the results of the search for it.
-/

namespace Memo

variable {α κ β : Type} [DecidableEq κ]

/-- Search for one more request, unless its key is remembered. -/
def remember (key : α → κ) (search : α → List β) (memo : κ → Option (List β)) (request : α) :
    κ → Option (List β) :=
  if (memo (key request)).isSome then memo
  else if 0 < (search request).length then Function.update memo (key request)
    (some (search request))
  else memo

/-- What is remembered after a list of requests. -/
def rememberAll (key : α → κ) (search : α → List β) (requests : List α) : κ → Option (List β) :=
  requests.foldl (remember key search) fun _ => none

variable {key : α → κ} {search : α → List β} {memo : κ → Option (List β)}

/-- What is remembered is what the search for a request of that key finds. -/
def Sound (key : α → κ) (search : α → List β) (memo : κ → Option (List β)) : Prop :=
  ∀ request found, memo (key request) = some found → found = search request

/-- Remembering an answer keeps a memo sound where the key determines the answer. -/
theorem remember_sound
    (determined : ∀ first second, key first = key second → search first = search second)
    (sound : Sound key search memo) (request : α) :
    Sound key search (remember key search memo request) := by
  unfold remember
  split_ifs with known finds
  · exact sound
  · intro other found remembered
    by_cases same : key other = key request
    · rw [same, Function.update_self] at remembered
      rw [← Option.some.inj remembered, determined other request same]
    · rw [Function.update_of_ne same] at remembered
      exact sound other found remembered
  · exact sound

/-- A remembered request stays remembered. -/
theorem remember_keeps {asked : κ} (known : (memo asked).isSome) (request : α) :
    (remember key search memo request asked).isSome := by
  unfold remember
  split_ifs with remembered finds
  · exact known
  · by_cases same : asked = key request
    · rw [same, Function.update_self]
      rfl
    · rw [Function.update_of_ne same]
      exact known
  · exact known

/-- An answer that finds something is remembered. -/
theorem remember_finds {request : α} (finds : 0 < (search request).length) :
    (remember key search memo request (key request)).isSome := by
  unfold remember
  split_ifs with remembered
  · exact remembered
  · rw [Function.update_self]
    rfl

/-- Remembering one answer leaves those under other keys. -/
theorem remember_other {asked : κ} {request : α} (other : asked ≠ key request) :
    remember key search memo request asked = memo asked := by
  unfold remember
  split_ifs with known finds
  · rfl
  · exact Function.update_of_ne other _ _
  · rfl

section Run

variable {requests : List α}

/-- Remembering many answers keeps a memo sound. -/
theorem foldl_sound
    (determined : ∀ first second, key first = key second → search first = search second)
    (sound : Sound key search memo) :
    Sound key search (requests.foldl (remember key search) memo) := by
  induction requests generalizing memo with
  | nil => exact sound
  | cons request requests ih => exact ih (remember_sound determined sound request)

theorem foldl_keeps {asked : κ} (known : (memo asked).isSome) :
    (requests.foldl (remember key search) memo asked).isSome := by
  induction requests generalizing memo with
  | nil => exact known
  | cons request requests ih => exact ih (remember_keeps known request)

/-- Of many requests each one that finds something is known afterwards. -/
theorem foldl_finds {request : α} (asked : request ∈ requests)
    (finds : 0 < (search request).length) :
    (requests.foldl (remember key search) memo (key request)).isSome := by
  induction requests generalizing memo with
  | nil => exact absurd asked List.not_mem_nil
  | cons first requests ih =>
      rcases List.mem_cons.mp asked with rfl | later
      · rw [List.foldl_cons]
        exact foldl_keeps (remember_finds finds)
      · exact ih later

/-- A key of no request is not remembered. -/
theorem rememberAll_other {asked : κ} (other : ∀ request ∈ requests, asked ≠ key request) :
    rememberAll key search requests asked = none := by
  have kept (memo : κ → Option (List β)) :
      requests.foldl (remember key search) memo asked = memo asked := by
    induction requests generalizing memo with
    | nil => rfl
    | cons first requests ih =>
        rw [List.foldl_cons, ih fun request later => other request (List.mem_cons_of_mem _ later)]
        exact remember_other (other first List.mem_cons_self)
  exact kept _

/-- Looking up the key of a request gives what the search for it finds. -/
theorem rememberAll_getD
    (determined : ∀ first second, key first = key second → search first = search second)
    {request : α} (asked : request ∈ requests) :
    (rememberAll key search requests (key request)).getD [] = search request := by
  have sound : Sound key search (rememberAll key search requests) :=
    foldl_sound determined fun _ _ remembered => nomatch remembered
  cases looked : rememberAll key search requests (key request) with
  | some found => exact sound request found looked
  | none =>
      by_contra finds
      have known := @foldl_finds α κ β _ key search (fun _ => none) requests request asked
        (List.length_pos_iff.mpr fun empty => finds empty.symm)
      change (rememberAll key search requests (key request)).isSome at known
      rw [looked] at known
      exact Bool.false_ne_true known

end Run

end Memo
