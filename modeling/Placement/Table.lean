/-!
# Tables in order of insertion

A `Table` lists each of its keys once, in the order in which the keys first came.  A later value for a
key replaces the earlier one at the place of the earlier one.  `Table.push` and `Table.grouped` collect
values into one list per key.
-/

namespace Placement
set_option autoImplicit false

/-! ## Entry lists -/

namespace Entries
variable {κ ν μ : Type} [DecidableEq κ]

/-- Replaces the value of a key that is listed, otherwise lists the key at the end. -/
def put (k : κ) (v : ν) : List (κ × ν) → List (κ × ν)
  | [] => [(k, v)]
  | e :: es => if e.1 = k then (k, v) :: es else e :: put k v es

def find? (k : κ) : List (κ × ν) → Option ν
  | [] => none
  | e :: es => if e.1 = k then some e.2 else find? k es

/-- Changes the value of a key if it is listed. -/
def alter (k : κ) (f : ν → ν) : List (κ × ν) → List (κ × ν)
  | [] => []
  | e :: es => if e.1 = k then (e.1, f e.2) :: es else e :: alter k f es

theorem mem_keys_put (k x : κ) (v : ν) (es : List (κ × ν)) :
    x ∈ (put k v es).map Prod.fst ↔ x = k ∨ x ∈ es.map Prod.fst := by
  induction es with
  | nil => simp [put]
  | cons e es ih =>
    by_cases h : e.1 = k
    · simp [put, h]
    · simp only [put, h, if_false, List.map_cons, List.mem_cons, ih]
      constructor <;> rintro (h | h | h) <;> simp [h]

theorem nodup_put (k : κ) (v : ν) {es : List (κ × ν)} (h : (es.map Prod.fst).Nodup) :
    ((put k v es).map Prod.fst).Nodup := by
  induction es with
  | nil => simp [put]
  | cons e es ih =>
    rw [List.map_cons, List.nodup_cons] at h
    by_cases hk : e.1 = k
    · simp only [put, hk, if_true, List.map_cons, List.nodup_cons]
      exact ⟨hk ▸ h.1, h.2⟩
    · simp only [put, hk, if_false, List.map_cons, List.nodup_cons]
      refine ⟨fun hm => ?_, ih h.2⟩
      rcases (mem_keys_put k e.1 v es).1 hm with he | hm
      · exact hk he
      · exact h.1 hm

theorem keys_alter (k : κ) (f : ν → ν) (es : List (κ × ν)) :
    (alter k f es).map Prod.fst = es.map Prod.fst := by
  induction es with
  | nil => rfl
  | cons e es ih => by_cases h : e.1 = k <;> simp [alter, h, ih]

theorem find?_put (k x : κ) (v : ν) (es : List (κ × ν)) :
    find? x (put k v es) = if x = k then some v else find? x es := by
  induction es with
  | nil => simp [put, find?, eq_comm]
  | cons e es ih =>
    by_cases hk : e.1 = k
    · subst hk
      by_cases hx : x = e.1 <;> simp [put, find?, hx, eq_comm]
    · by_cases hx : e.1 = x
      · have hxk : x ≠ k := fun h => hk (hx.trans h)
        simp [put, find?, hx, hxk]
      · simp [put, find?, hk, hx, ih]

end Entries

/-! ## Tables -/

structure Table (κ ν : Type) where
  entries : List (κ × ν)
  keys_nodup : (entries.map Prod.fst).Nodup

namespace Table
variable {κ ν μ : Type}

def empty : Table κ ν := ⟨[], List.nodup_nil⟩

def keys (t : Table κ ν) : List κ := t.entries.map Prod.fst

def values (t : Table κ ν) : List ν := t.entries.map Prod.snd

def size (t : Table κ ν) : Nat := t.entries.length

def isEmpty (t : Table κ ν) : Bool := t.entries.isEmpty

def mapValues (t : Table κ ν) (f : κ → ν → μ) : Table κ μ where
  entries := t.entries.map fun e => (e.1, f e.1 e.2)
  keys_nodup := by simpa [Function.comp_def] using t.keys_nodup

variable [DecidableEq κ]

def get? (t : Table κ ν) (k : κ) : Option ν := Entries.find? k t.entries

def contains (t : Table κ ν) (k : κ) : Bool := (t.get? k).isSome

def insert (t : Table κ ν) (k : κ) (v : ν) : Table κ ν :=
  ⟨Entries.put k v t.entries, Entries.nodup_put k v t.keys_nodup⟩

def modify (t : Table κ ν) (k : κ) (f : ν → ν) : Table κ ν :=
  ⟨Entries.alter k f t.entries, by rw [Entries.keys_alter]; exact t.keys_nodup⟩

def insertAll (t : Table κ ν) (pairs : List (κ × ν)) : Table κ ν :=
  pairs.foldl (fun t e => t.insert e.1 e.2) t

def ofList (pairs : List (κ × ν)) : Table κ ν := empty.insertAll pairs

/-- Inserts all entries of another table, its values winning. -/
def merge (t u : Table κ ν) : Table κ ν := t.insertAll u.entries

/-- Adds a value at the end of the list of a key. -/
def push (t : Table κ (List ν)) (k : κ) (v : ν) : Table κ (List ν) :=
  t.insert k ((t.get? k).getD [] ++ [v])

def pushAll (t : Table κ (List ν)) (pairs : List (κ × ν)) : Table κ (List ν) :=
  pairs.foldl (fun t e => t.push e.1 e.2) t

/-- One list of values for every key, keys and values in the order of the pairs. -/
def grouped (pairs : List (κ × ν)) : Table κ (List ν) := empty.pushAll pairs

/-! ## Looking up -/

theorem get?_empty (x : κ) : (empty : Table κ ν).get? x = none := rfl

theorem get?_insert (t : Table κ ν) (k x : κ) (v : ν) :
    (t.insert k v).get? x = if x = k then some v else t.get? x := Entries.find?_put k x v t.entries

end Table
end Placement
