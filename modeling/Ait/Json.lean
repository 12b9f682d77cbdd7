import Mathlib

/-!
# JSON values

Values as the JSON library holds them, with objects kept in key order. Reading
and writing text is the library's: a `SerdeJson` is what it offers.
-/

namespace Ait

abbrev Bytes := List UInt8

/-- Numbers that fit 64 bits are integers, all others are floats. -/
inductive Number
  | integer (n : ℤ)
  | float (bits : BitVec 64)
  deriving DecidableEq

inductive Value
  | null
  | bool (b : Bool)
  | number (n : Number)
  | string (s : String)
  | array (items : List Value)
  | object (fields : List (String × Value))

/-- `serde_json::from_slice` and `serde_json::to_vec` at `Value`. -/
structure SerdeJson where
  fromSlice : Bytes → Option Value
  toVec : Value → Option Bytes

abbrev Fields := List (String × Value)

namespace Fields

def get (m : Fields) (key : String) : Option Value := (m.find? fun f => f.1 = key).map Prod.snd

def insert (m : Fields) (key : String) (v : Value) : Fields :=
  match m with
  | [] => [(key,v)]
  | f::rest =>
    if f.1 = key then (key,v)::rest
    else if key < f.1 then (key,v)::f::rest
    else f::insert rest key v

def remove (m : Fields) (key : String) : Fields := m.filter fun f => f.1 ≠ key

@[simp] theorem get_nil (key : String) : get [] key = none := rfl

@[simp] theorem get_cons (f : String × Value) (m : Fields) (key : String) :
    get (f::m) key = if f.1 = key then some f.2 else get m key := by
  by_cases h : f.1 = key
  · simp [get,h]
  · simp [get,h]

@[simp] theorem get_insert (m : Fields) (key other : String) (v : Value) :
    (m.insert key v).get other = if other = key then some v else m.get other := by
  induction m with
  | nil => simp [insert,eq_comm]
  | cons f m ih =>
    unfold insert
    split
    · rename_i hkey
      by_cases h : other = key
      · simp [h]
      · simp [h,hkey,Ne.symm h]
    · rename_i hkey
      split
      · by_cases h : other = key
        · simp [h]
        · simp [h,Ne.symm h]
      · rw [get_cons,ih,get_cons]
        by_cases h : other = key
        · simp [h,hkey]
        · simp [h]

@[simp] theorem get_remove (m : Fields) (key other : String) :
    (m.remove key).get other = if other = key then none else m.get other := by
  induction m with
  | nil => simp [remove]
  | cons f m ih =>
    by_cases hf : f.1 = key
    · have hdrop : remove (f::m) key = remove m key := by simp [remove,hf]
      rw [hdrop,ih,get_cons]
      by_cases h : other = key
      · simp [h]
      · simp [h,hf,Ne.symm h]
    · have hkeep : remove (f::m) key = f::remove m key := by simp [remove,hf]
      rw [hkeep,get_cons,ih,get_cons]
      by_cases h : other = key
      · simp [h,hf]
      · simp [h]

theorem mem_insert {m : Fields} {key : String} {v : Value} {g : String × Value}
    (h : g ∈ m.insert key v) : g = (key,v) ∨ g ∈ m := by
  induction m with
  | nil => exact .inl (List.mem_singleton.mp h)
  | cons f m ih =>
    unfold insert at h
    split at h
    · rcases List.mem_cons.mp h with h | h
      · exact .inl h
      · exact .inr (List.mem_cons_of_mem f h)
    · split at h
      · exact List.mem_cons.mp h
      · rcases List.mem_cons.mp h with h | h
        · exact .inr (List.mem_cons.mpr (.inl h))
        · rcases ih h with h | h
          · exact .inl h
          · exact .inr (List.mem_cons_of_mem f h)

end Fields

namespace Value

/-- `Value::get`: a field of an object. -/
def get : Value → String → Option Value
  | .object m, key => Fields.get m key
  | _, _ => none

def asI64 : Value → Option ℤ
  | .number (.integer n) => if n < 2^63 then some n else none
  | _ => none

end Value
end Ait
