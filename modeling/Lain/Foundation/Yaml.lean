import Mathlib

/-!
# YAML values

A document as a tree of values.
-/

namespace Lain.Foundation

inductive Yaml where
  | null
  | bool (b : Bool)
  | number (json : String)
  | string (text : String)
  | sequence (items : List Yaml)
  | mapping (entries : List (Yaml × Yaml))
  | tagged (tag : String) (value : Yaml)

namespace Yaml

def untag : Yaml → Yaml
  | tagged _ value => untag value
  | value => value

def asMapping (value : Yaml) : Option (List (Yaml × Yaml)) :=
  match untag value with
  | mapping entries => some entries
  | _ => none

def asSequence (value : Yaml) : Option (List Yaml) :=
  match untag value with
  | sequence items => some items
  | _ => none

/-- The text of a string. -/
def asStr (value : Yaml) : Option String :=
  match untag value with
  | string text => some text
  | _ => none

def asBool (value : Yaml) : Option Bool :=
  match untag value with
  | bool b => some b
  | _ => none

def isKey (key : String) : Yaml → Bool
  | string text => decide (text = key)
  | _ => false

/-- The value of a mapping under a key. -/
def get (key : String) (value : Yaml) : Option Yaml :=
  value.asMapping.bind fun entries =>
    (entries.find? fun entry => isKey key entry.1).map Prod.snd

def items (key : String) (value : Yaml) : List Yaml :=
  ((value.get key).bind asSequence).getD []

/-- The texts in the sequence under a key. -/
def texts (key : String) (value : Yaml) : List String :=
  (value.items key).filterMap asStr

theorem sizeOf_untag (value : Yaml) : sizeOf (untag value) ≤ sizeOf value := by
  induction value using untag.induct with
  | case1 tag value ih =>
    rw [untag]
    refine ih.trans ?_
    rw [tagged.sizeOf_spec]
    exact Nat.le_add_left _ _
  | case2 value plain =>
    rw [untag]
    exact plain

theorem sizeOf_of_mem {value : Yaml} {entries : List (Yaml × Yaml)}
    (found : value.asMapping = some entries) {entry : Yaml × Yaml} (member : entry ∈ entries) :
    sizeOf entry.2 < sizeOf value := by
  have size := sizeOf_untag value
  unfold asMapping at found
  split at found
  next listed same =>
      obtain rfl := Option.some.inj found
      rw [same, mapping.sizeOf_spec] at size
      have inside := List.sizeOf_lt_of_mem member
      have pair : sizeOf entry = 1 + sizeOf entry.1 + sizeOf entry.2 := Prod.mk.sizeOf_spec _ _
      omega
  next => cases found

theorem sizeOf_get {key : String} {value inner : Yaml} (found : value.get key = some inner) :
    sizeOf inner < sizeOf value := by
  obtain ⟨entries, mapped, found⟩ := Option.bind_eq_some_iff.mp found
  obtain ⟨entry, first, rfl⟩ := Option.map_eq_some_iff.mp found
  exact sizeOf_of_mem mapped (List.mem_of_find?_eq_some first)

theorem sizeOf_of_mem_items {key : String} {value item : Yaml} (member : item ∈ value.items key) :
    sizeOf item < sizeOf value := by
  unfold items at member
  cases found : value.get key with
  | none =>
    rw [found] at member
    exact absurd member List.not_mem_nil
  | some inner =>
    rw [found, Option.bind_some] at member
    have outer := sizeOf_get found
    have size := sizeOf_untag inner
    unfold asSequence at member
    split at member
    next listed same =>
        rw [same, sequence.sizeOf_spec] at size
        have inside := List.sizeOf_lt_of_mem member
        change sizeOf item < sizeOf listed at inside
        omega
    next => exact absurd member List.not_mem_nil

end Yaml

end Lain.Foundation
