/-!
# Keyed lists

A keyed list holds values under distinct keys. A key keeps the position at which it was
first given and carries the value that was given last, so the order of declaration stays
visible while repeated declarations overwrite each other.
-/

namespace DrawnModels

universe u v

structure KeyedList (κ : Type u) (α : Type v) where
  entries : List (κ × α)
  keys_nodup : (entries.map Prod.fst).Nodup
deriving DecidableEq

namespace KeyedList

variable {κ : Type u} {α : Type v}

def keys (l : KeyedList κ α) : List κ :=
  l.entries.map Prod.fst

def empty : KeyedList κ α :=
  ⟨[], List.nodup_nil⟩

def isEmpty (l : KeyedList κ α) : Bool :=
  l.entries.isEmpty

variable [DecidableEq κ]

/-- Writes `a` under `k` in place of the value that stands there, or else at the end. -/
def put (k : κ) (a : α) : List (κ × α) → List (κ × α)
  | [] => [(k, a)]
  | (j, b) :: rest => if j = k then (k, a) :: rest else (j, b) :: put k a rest

theorem keys_put (k : κ) (a : α) (l : List (κ × α)) :
    (put k a l).map Prod.fst =
      if k ∈ l.map Prod.fst then l.map Prod.fst else l.map Prod.fst ++ [k] := by
  induction l with
  | nil => simp [put]
  | cons e rest ih =>
    obtain ⟨j, b⟩ := e
    by_cases h : j = k
    · simp [put, h]
    · have h' : ¬ k = j := fun e => h e.symm
      simp only [put, h, if_false, List.map_cons, ih, List.mem_cons, h', false_or]
      split <;> simp

theorem nodup_keys_put (k : κ) (a : α) {l : List (κ × α)} (h : (l.map Prod.fst).Nodup) :
    ((put k a l).map Prod.fst).Nodup := by
  rw [keys_put]
  split
  · exact h
  · rename_i hk
    refine List.nodup_append.mpr ⟨h, by simp, ?_⟩
    intro j hj i hi e
    simp only [List.mem_singleton] at hi
    subst hi
    exact hk (e ▸ hj)

theorem lookup_cons_eq_ite (j : κ) (e : κ × α) (l : List (κ × α)) :
    (e :: l).lookup j = if j = e.1 then some e.2 else l.lookup j := by
  rw [List.lookup_cons]
  by_cases h : j = e.1
  · simp [h]
  · simp [h, beq_eq_false_iff_ne.mpr h]

theorem lookup_put (k : κ) (a : α) (l : List (κ × α)) (j : κ) :
    (put k a l).lookup j = if j = k then some a else l.lookup j := by
  induction l with
  | nil => simp [put, lookup_cons_eq_ite]
  | cons e rest ih =>
    obtain ⟨i, b⟩ := e
    by_cases h : i = k
    · subst h
      by_cases hj : j = i <;> simp [put, lookup_cons_eq_ite, hj]
    · by_cases hj : j = i
      · subst hj; simp [put, h, lookup_cons_eq_ite]
      · simp [put, h, lookup_cons_eq_ite, hj, ih]

theorem isSome_lookup_iff (l : List (κ × α)) (k : κ) :
    (l.lookup k).isSome = true ↔ k ∈ l.map Prod.fst := by
  induction l with
  | nil => simp
  | cons e rest ih =>
    rw [lookup_cons_eq_ite, List.map_cons, List.mem_cons]
    by_cases h : k = e.1 <;> simp [h, ih]

def insert (l : KeyedList κ α) (k : κ) (a : α) : KeyedList κ α :=
  ⟨put k a l.entries, nodup_keys_put k a l.keys_nodup⟩

def find? (l : KeyedList κ α) (k : κ) : Option α :=
  l.entries.lookup k

def contains (l : KeyedList κ α) (k : κ) : Bool :=
  (l.find? k).isSome

def modify (l : KeyedList κ α) (k : κ) (f : α → α) : KeyedList κ α where
  entries := l.entries.map fun e => (e.1, if e.1 = k then f e.2 else e.2)
  keys_nodup := by
    rw [List.map_map]
    exact l.keys_nodup

/-- Inserts the given pairs one after the other. -/
def ofList (pairs : List (κ × α)) : KeyedList κ α :=
  pairs.foldl (fun l e => l.insert e.1 e.2) empty

/-- Whether two keyed lists are the same map: they hold the same values under the same keys,
in whatever order. -/
def sameMap [DecidableEq α] (l m : KeyedList κ α) : Bool :=
  l.entries.all (fun e => m.find? e.1 = some e.2) &&
    m.entries.all (fun e => l.find? e.1 = some e.2)

@[simp] theorem find?_empty (k : κ) : (empty : KeyedList κ α).find? k = none := rfl

@[simp] theorem find?_insert (l : KeyedList κ α) (k : κ) (a : α) (j : κ) :
    (l.insert k a).find? j = if j = k then some a else l.find? j :=
  lookup_put k a l.entries j

theorem keys_insert (l : KeyedList κ α) (k : κ) (a : α) :
    (l.insert k a).keys = if k ∈ l.keys then l.keys else l.keys ++ [k] :=
  keys_put k a l.entries

theorem mem_keys_insert (l : KeyedList κ α) (k : κ) (a : α) (j : κ) :
    j ∈ (l.insert k a).keys ↔ j = k ∨ j ∈ l.keys := by
  rw [keys_insert]
  split
  · rename_i h
    exact ⟨Or.inr, fun e => e.elim (fun e => e ▸ h) id⟩
  · simp [or_comm]

@[simp] theorem contains_iff (l : KeyedList κ α) (k : κ) :
    l.contains k = true ↔ k ∈ l.keys :=
  isSome_lookup_iff l.entries k

end KeyedList

end DrawnModels
