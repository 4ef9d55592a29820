/-!
# Ordered maps

A map that remembers the order in which its keys came. There are two ways to meet a key that is
there already: `insertNew` keeps the first value, `put` takes the last one and leaves the key
where it is.
-/

namespace Ambient.Ordered

variable {α β : Type} [DecidableEq α]

/-- A list of entries whose keys are distinct, in the order in which the keys came. -/
structure Map (α β : Type) where
  entries : List (α × β)
  distinct : (entries.map Prod.fst).Nodup

namespace Map

/-- The map without entries. -/
def empty : Map α β := ⟨[], List.nodup_nil⟩

/-- The empty map. -/
instance : EmptyCollection (Map α β) := ⟨empty⟩
/-- By default a map is empty. -/
instance : Inhabited (Map α β) := ⟨empty⟩

/-- The keys in order. -/
def keys (m : Map α β) : List α := m.entries.map Prod.fst

/-- The values in the order of their keys. -/
def values (m : Map α β) : List β := m.entries.map Prod.snd

/-- The number of entries. -/
def size (m : Map α β) : Nat := m.entries.length

/-- The value of a key. -/
def get? (m : Map α β) (key : α) : Option β := m.entries.lookup key

/-- Adds an entry at the end, unless its key has a value. -/
def insertNew (m : Map α β) (key : α) (value : β) : Map α β :=
  if h : key ∈ m.keys then m
  else ⟨m.entries ++ [(key, value)], by
    have hdisjoint : ∀ other ∈ m.keys, other ≠ key := fun other ho hok => h (hok ▸ ho)
    have hkeys : (m.keys ++ [key]).Nodup :=
      List.nodup_append.mpr ⟨m.distinct, by simp, by simpa using hdisjoint⟩
    simpa [keys] using hkeys⟩

/-- Replaces the value of the key where it stands. -/
def replaceAt (key : α) (value : β) (entries : List (α × β)) : List (α × β) :=
  entries.map fun entry => if entry.1 = key then (key, value) else entry

/-- Replacing a value leaves the keys as they are. -/
theorem keys_replaceAt (key : α) (value : β) (entries : List (α × β)) :
    (replaceAt key value entries).map Prod.fst = entries.map Prod.fst := by
  induction entries with
  | nil => rfl
  | cons entry rest ih =>
    have hhead : (if entry.1 = key then (key, value) else entry).1 = entry.1 := by
      split <;> simp_all
    simp only [replaceAt, List.map_cons] at ih ⊢
    rw [hhead, ih]

/-- Gives the key a value: at the end if it is new, where it stands otherwise. -/
def put (m : Map α β) (key : α) (value : β) : Map α β :=
  if key ∈ m.keys then
    ⟨replaceAt key value m.entries, by rw [keys_replaceAt]; exact m.distinct⟩
  else m.insertNew key value

/-- Adds the entries of a list from left to right; a key keeps its first value. -/
def insertAllNew (m : Map α β) (entries : List (α × β)) : Map α β :=
  entries.foldl (fun m entry => m.insertNew entry.1 entry.2) m

/-- The map in which a key that comes several times stands where it came first and has the value
that came last. -/
def ofListLast (entries : List (α × β)) : Map α β :=
  entries.foldl (fun m entry => m.put entry.1 entry.2) empty

/-- The union; where both maps have a key, the first one's value counts. -/
def union (m n : Map α β) : Map α β :=
  m.insertAllNew n.entries

/-- A new entry is added at the end, unless its key is there already. -/
theorem entries_insertNew (m : Map α β) (key : α) (value : β) :
    (m.insertNew key value).entries =
      if key ∈ m.keys then m.entries else m.entries ++ [(key, value)] := by
  unfold insertNew
  split <;> rfl

/-- The value of a key is the one it stands with. -/
theorem get?_eq_some_iff {m : Map α β} {key : α} {value : β} :
    m.get? key = some value ↔ (key, value) ∈ m.entries := by
  obtain ⟨entries, hdistinct⟩ := m
  show entries.lookup key = some value ↔ (key, value) ∈ entries
  induction entries with
  | nil => simp
  | cons entry rest ih =>
    obtain ⟨first, held⟩ := entry
    obtain ⟨hfirst, hrest⟩ := List.nodup_cons.mp hdistinct
    rw [List.lookup_cons, List.mem_cons]
    by_cases h : key = first
    · subst h
      have habsent : (key, value) ∉ rest := fun hmem =>
        hfirst (List.mem_map.mpr ⟨(key, value), hmem, rfl⟩)
      simp [habsent, eq_comm]
    · rw [beq_false_of_ne h]
      simp only [Prod.mk.injEq, h, false_and, false_or]
      exact ih hrest

/-- A key has a value exactly if it is among the keys. -/
theorem isSome_get?_iff {m : Map α β} {key : α} : (m.get? key).isSome ↔ key ∈ m.keys := by
  simp only [Option.isSome_iff_exists, get?_eq_some_iff, keys, List.mem_map, Prod.exists]
  exact ⟨fun ⟨value, hmem⟩ => ⟨key, value, hmem, rfl⟩, fun ⟨_, value, hmem, hkey⟩ =>
    ⟨value, hkey ▸ hmem⟩⟩

/-- A key that a value is put to has that value. -/
theorem get?_put_self (m : Map α β) (key : α) (value : β) :
    (m.put key value).get? key = some value := by
  rw [get?_eq_some_iff, put]
  split
  · next hkey =>
    obtain ⟨entry, hentry, hfirst⟩ := List.mem_map.mp hkey
    exact List.mem_map.mpr ⟨entry, hentry, if_pos hfirst⟩
  · next hnew =>
    rw [entries_insertNew, if_neg hnew]
    exact List.mem_append_right _ List.mem_cons_self

/-- The other keys keep what they have. -/
theorem get?_put_of_ne (m : Map α β) {key other : α} (value : β) (h : other ≠ key) :
    (m.put key value).get? other = m.get? other := by
  refine Option.ext fun held => ?_
  rw [get?_eq_some_iff, get?_eq_some_iff, put]
  split
  · -- Where a value is replaced, only the entry of its key changes.
    simp only [replaceAt, List.mem_map]
    constructor
    · rintro ⟨entry, hentry, hsame⟩
      split at hsame
      · exact absurd (congrArg Prod.fst hsame).symm h
      · exact hsame ▸ hentry
    · intro hentry
      exact ⟨_, hentry, if_neg h⟩
  · next hnew =>
    rw [entries_insertNew, if_neg hnew]
    simp [h]

end Map

end Ambient.Ordered
