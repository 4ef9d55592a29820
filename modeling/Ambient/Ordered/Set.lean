/-!
# Ordered sets

A set that remembers the order in which its elements came: adding an element that is there
already changes nothing.
-/

namespace Ambient.Ordered

variable {α : Type} [DecidableEq α]

/-- A list without repeats, in the order of first appearance. -/
structure Set (α : Type) where
  toList : List α
  distinct : toList.Nodup

namespace Set

/-- The set without elements. -/
def empty : Set α := ⟨[], List.nodup_nil⟩

/-- The empty set. -/
instance : EmptyCollection (Set α) := ⟨empty⟩
/-- By default a set is empty. -/
instance : Inhabited (Set α) := ⟨empty⟩

/-- Whether an element is in the set. -/
def contains (s : Set α) (a : α) : Bool :=
  decide (a ∈ s.toList)

/-- Adds an element at the end, unless it is there. -/
def insert (s : Set α) (a : α) : Set α :=
  if h : a ∈ s.toList then s
  else ⟨s.toList ++ [a], by
    have hdisjoint : ∀ b ∈ s.toList, b ≠ a := fun b hb hba => h (hba ▸ hb)
    exact List.nodup_append.mpr ⟨s.distinct, by simp, by simpa using hdisjoint⟩⟩

/-- Adds the elements of a list from left to right. -/
def insertAll (s : Set α) (as : List α) : Set α :=
  as.foldl insert s

/-- The elements of a list in the order of their first appearance. -/
def ofList (as : List α) : Set α :=
  insertAll empty as

/-- The union, the elements of the first set in front. -/
def union (s t : Set α) : Set α :=
  s.insertAll t.toList

/-- Inserting an element adds it at the end, if it is new. -/
theorem toList_insert (s : Set α) (a : α) :
    (s.insert a).toList = if a ∈ s.toList then s.toList else s.toList ++ [a] := by
  unfold insert
  split <;> rfl

/-- Asking a set for an element answers whether it is one of its elements. -/
@[simp] theorem contains_iff (s : Set α) (a : α) : s.contains a = true ↔ a ∈ s.toList := by
  simp [contains]

/-- Adding one element adds nothing else. -/
theorem mem_insert {s : Set α} {a b : α} : b ∈ (s.insert a).toList ↔ b ∈ s.toList ∨ b = a := by
  rw [toList_insert]
  split
  · next h => exact ⟨Or.inl, fun hb => hb.elim id fun hba => hba ▸ h⟩
  · simp

/-- Adding one element changes nothing about the others. -/
theorem contains_insert_of_ne (s : Set α) {a b : α} (h : b ≠ a) :
    (s.insert a).contains b = s.contains b := by
  rw [Bool.eq_iff_iff, contains_iff, contains_iff, mem_insert]
  simp [h]

/-- Adding the elements of a list adds these and nothing else. -/
theorem mem_insertAll {s : Set α} {as : List α} {b : α} :
    b ∈ (s.insertAll as).toList ↔ b ∈ s.toList ∨ b ∈ as := by
  induction as generalizing s with
  | nil => simp [insertAll]
  | cons a as ih =>
    have hstep : b ∈ ((s.insert a).insertAll as).toList ↔ (b ∈ s.toList ∨ b = a) ∨ b ∈ as := by
      rw [ih, mem_insert]
    simpa [insertAll, or_assoc] using hstep

/-- Adding two lists one after the other adds what they are together. -/
theorem insertAll_append (s : Set α) (as bs : List α) :
    s.insertAll (as ++ bs) = (s.insertAll as).insertAll bs :=
  List.foldl_append

/-- Adding what another set has become adds what that set had, and then what it was given. -/
theorem insertAll_toList (s t : Set α) (as : List α) :
    s.insertAll (t.insertAll as).toList = (s.insertAll t.toList).insertAll as := by
  induction as generalizing t with
  | nil => rfl
  | cons a as ih =>
    have hstep : s.insertAll (t.insert a).toList = (s.insertAll t.toList).insert a := by
      rw [toList_insert]
      split
      · next h => rw [insert, dif_pos (mem_insertAll.mpr (.inr h))]
      · exact insertAll_append s t.toList [a]
    have hnext := ih (t.insert a)
    rw [hstep] at hnext
    exact hnext

/-- The set of a list has the elements of the list. -/
theorem mem_ofList {as : List α} {b : α} : b ∈ (ofList as).toList ↔ b ∈ as := by
  rw [ofList, mem_insertAll]
  simp [empty]

end Set

end Ambient.Ordered
