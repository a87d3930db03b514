import Mathlib

/-!
# Keys, values and changes

The data types of `types.hpp`. Byte strings are lists of bytes; `gto::cstring` compares
them byte by byte, shorter prefixes first, which is the order of `compare` here. The
reference counter of a metadata object changes after its creation, so it is kept by the
store, and `Meta` holds the fields that never change. Revisions (`rev_t`) are only stored
and compared, so they are natural numbers.
-/

namespace Nplex

/-- A byte string, as held by `gto::cstring` and `std::string`. -/
abbrev Bytes := List UInt8

/-- A database key, formatted like a path. -/
abbrev Key := Bytes

/-- Byte strings are equal when they are found equal. -/
instance bytesLawfulBEq : LawfulBEq Bytes := inferInstance

/-- A map ordered by key, as `std::map` with `gto::cstring_compare`. -/
abbrev KeyMap (V : Type) := Std.ExtTreeMap Bytes V compare

/-- Lookup after an insertion. -/
theorem lookup_insert {V : Type} (m : KeyMap V) (k k' : Key) (v : V) :
    (m.insert k v)[k']? = if k = k' then some v else m[k']? := by
  simp [Std.ExtTreeMap.getElem?_insert]

/-- Lookup after an insertion that keeps a present value. -/
theorem lookup_insertIfNew {V : Type} (m : KeyMap V) (k k' : Key) (v : V) :
    (m.insertIfNew k v)[k']? = if k = k' then some ((m[k']?).getD v) else m[k']? := by
  rw [Std.ExtTreeMap.getElem?_insertIfNew]
  by_cases hk : k = k'
  · subst hk
    by_cases hmem : k ∈ m
    · simp [hmem]
    · simp [hmem]
  · simp [hk]

/-- Lookup after an erasure. -/
theorem lookup_erase {V : Type} (m : KeyMap V) (k k' : Key) :
    (m.erase k)[k']? = if k = k' then none else m[k']? := by
  simp [Std.ExtTreeMap.getElem?_erase]

/-- A key is in a map when the lookup finds a value. -/
theorem mem_keyMap {V : Type} {m : KeyMap V} {k : Key} : k ∈ m ↔ ∃ v, m[k]? = some v := by
  rw [Std.ExtTreeMap.mem_iff_isSome_getElem?, Option.isSome_iff_exists]

/-- The content of a C string: everything before the first NUL byte. -/
def cStr (b : Bytes) : Bytes := b.takeWhile (· ≠ 0)

/-- Transaction metadata (`meta_t` without its reference counter). -/
structure Meta where
  rev : ℕ
  user : Bytes
  timestamp : ℕ
  txType : ℕ
  deriving DecidableEq, Repr

/-- A database value; `metadata` is empty for values written by an uncommitted transaction. -/
structure Value where
  data : Bytes
  metadata : Option Meta
  deriving DecidableEq, Repr

/-- The kinds of change reported after an update. -/
inductive ChangeAction
  | create
  | update
  | delete
  deriving DecidableEq, Repr

/-- A change in the database content; an absent value is `nullptr` in the source. -/
structure Change where
  action : ChangeAction
  key : Key
  newValue : Option Value
  oldValue : Option Value
  deriving DecidableEq, Repr

/-- The keys named by a list of changes. -/
def changedKeys (changes : List Change) : List Key := changes.map (·.key)

/-- A key is named by a list of changes when one of them is about it. -/
theorem mem_changedKeys {changes : List Change} {k : Key} :
    k ∈ changedKeys changes ↔ ∃ c ∈ changes, c.key = k := by
  simp [changedKeys]

end Nplex
