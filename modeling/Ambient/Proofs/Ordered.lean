import Ambient.Ordered.Map
import Ambient.Ordered.Set
import Mathlib.Data.List.Basic
import Mathlib.Data.List.Induction
import Mathlib.Data.List.Nodup
import Mathlib.Data.List.Pairwise

/-!
# Sets and maps in order of first appearance

A list has the elements of another in the order in which they first appear there: each once, and
those in front that the other list has earlier. There is only one such list. A union of sets has its
elements in this order, and a union of maps its keys, each with the value of the first map that has
it. So it does not matter how the sets or maps are put together, as long as their order is kept.
-/

/-!
## Values of united maps

The union of two maps has the first one's value for every key that the first one has, and the
second one's for the others. Two maps agree if no key has different values in them; of maps that
agree it does not matter which one comes first.
-/

namespace Ambient.Ordered.Map

variable {α β : Type} {m n : Map α β} {key : α} {value other : β}

/-- No key has different values in two maps. -/
def Agrees (m n : Map α β) : Prop :=
  ∀ entry ∈ m.entries, ∀ other ∈ n.entries, entry.1 = other.1 → entry.2 = other.2

/-- Agreeing is symmetric. -/
theorem Agrees.symm (h : m.Agrees n) : n.Agrees m :=
  fun entry hentry other hother hkey => (h other hother entry hentry hkey.symm).symm

variable [DecidableEq α]

/-- Whether two maps agree is decided by comparing their entries. -/
instance [DecidableEq β] (m n : Map α β) : Decidable (m.Agrees n) :=
  inferInstanceAs (Decidable (∀ entry ∈ m.entries, ∀ other ∈ n.entries, _ → _))

/-- Maps that agree have equal values under a key that both have. -/
theorem Agrees.eq_of_get? (h : m.Agrees n) (hm : m.get? key = some value)
    (hn : n.get? key = some other) : value = other :=
  h (key, value) (get?_eq_some_iff.mp hm) (key, other) (get?_eq_some_iff.mp hn) rfl

/-- A new entry counts if its key has no value. -/
theorem get?_insertNew (m : Map α β) (held : α) (value : β) (key : α) :
    (m.insertNew held value).get? key
      = (m.get? key).or (if key = held then some value else none) := by
  rw [get?, entries_insertNew]
  split
  · next hheld =>
    by_cases hkey : key = held
    · obtain ⟨own, hown⟩ := Option.isSome_iff_exists.mp (isSome_get?_iff.mpr (hkey ▸ hheld))
      rw [← get?, hown, Option.some_or]
    · rw [if_neg hkey, Option.or_none, get?]
  · rw [List.lookup_append, get?, List.lookup_cons, List.lookup_nil]
    by_cases hkey : key = held
    · rw [if_pos hkey, hkey, beq_self_eq_true]
    · rw [if_neg hkey, beq_false_of_ne hkey]

/-- Of new entries the first one with a key counts, if the key has no value. -/
theorem get?_insertAllNew (m : Map α β) (entries : List (α × β)) (key : α) :
    (m.insertAllNew entries).get? key = (m.get? key).or (entries.lookup key) := by
  induction entries generalizing m with
  | nil => rw [List.lookup_nil, Option.or_none, insertAllNew, List.foldl_nil]
  | cons entry rest ih =>
    have hstep : m.insertAllNew (entry :: rest)
        = (m.insertNew entry.1 entry.2).insertAllNew rest := rfl
    rw [hstep, ih, get?_insertNew, Option.or_assoc, List.lookup_cons]
    by_cases hkey : key = entry.1
    · rw [if_pos hkey, hkey, beq_self_eq_true, Option.some_or]
    · rw [if_neg hkey, beq_false_of_ne hkey, Option.none_or]

/-- In a union the first map's value counts. -/
theorem get?_union (m n : Map α β) (key : α) :
    (m.union n).get? key = (m.get? key).or (n.get? key) :=
  get?_insertAllNew m n.entries key

end Ambient.Ordered.Map

/-!
## Elements in order of appearance

When the elements of a list in the order of their first appearance are the list itself, and what
becomes of them if each element stands for several others.
-/

namespace Ambient.Ordered.Set

variable {α β : Type}

/-- Lists that have no repeats make up one without repeats exactly if they have nothing in
common. -/
theorem nodup_flatMap_iff {f : α → List β} {as : List α} (has : as.Nodup)
    (hf : ∀ a ∈ as, (f a).Nodup) :
    (as.flatMap f).Nodup ↔ ∀ a ∈ as, ∀ b ∈ as, a ≠ b → (f a).Disjoint (f b) := by
  rw [List.nodup_flatMap]
  constructor
  · rintro ⟨-, hpairwise⟩ a ha b hb hne
    have hsymm : Std.Symm (Function.onFun List.Disjoint f) :=
      ⟨fun _ _ h _ ha hb => h hb ha⟩
    exact hpairwise.forall ha hb hne
  · intro h
    exact ⟨hf, has.pairwise_of_forall_ne h⟩

variable [DecidableEq α] [DecidableEq β]

/-- Inserting what a set has already leaves it as it is. -/
theorem insertAll_of_subset {s : Set α} {as : List α} (h : ∀ a ∈ as, a ∈ s.toList) :
    s.insertAll as = s := by
  induction as with
  | nil => rfl
  | cons a as ih =>
    have hinsert : s.insert a = s := by
      rw [Set.insert, dif_pos (h a List.mem_cons_self)]
    rw [Set.insertAll, List.foldl_cons, hinsert]
    exact ih fun b hb => h b (List.mem_cons_of_mem a hb)

/-- A list without repeats is kept as it is. -/
theorem toList_ofList_eq_iff {as : List α} :
    (Set.ofList as).toList = as ↔ as.Nodup := by
  constructor
  · intro h
    rw [← h]
    exact Set.distinct _
  · intro h
    induction as using List.reverseRecOn with
    | nil => rfl
    | append_singleton as a ih =>
      have hnodup := List.nodup_append.mp h
      have hnew : a ∉ (Set.ofList as).toList := fun ha =>
        hnodup.2.2 a (Set.mem_ofList.mp ha) a List.mem_cons_self rfl
      have hstep : (Set.ofList (as ++ [a])) = (Set.ofList as).insert a :=
        Set.insertAll_append _ _ _
      rw [hstep, Set.toList_insert, if_neg hnew, ih hnodup.1]

/-- What stands for a repeated element is repeated, so leaving the element out changes nothing
about first appearances. -/
theorem ofList_flatMap (f : α → List β) (as : List α) :
    Set.ofList ((Set.ofList as).toList.flatMap f) =
      Set.ofList (as.flatMap f) := by
  induction as using List.reverseRecOn with
  | nil => rfl
  | append_singleton as a ih =>
    have hstep : (Set.ofList (as ++ [a])) = (Set.ofList as).insert a :=
      Set.insertAll_append _ _ _
    have happend : Set.ofList ((as ++ [a]).flatMap f) =
        (Set.ofList (as.flatMap f)).insertAll (f a) := by
      rw [List.flatMap_append, List.flatMap_singleton]
      exact Set.insertAll_append _ _ _
    rw [hstep, happend, Set.toList_insert]
    split
    · rename_i ha
      rw [ih, insertAll_of_subset]
      intro b hb
      exact Set.mem_ofList.mpr
        (List.mem_flatMap.mpr ⟨a, Set.mem_ofList.mp ha, hb⟩)
    · rw [List.flatMap_append, List.flatMap_singleton, ← ih]
      exact Set.insertAll_append _ _ _

/-- What stands for an element that is repeated is repeated. -/
theorem ofList_map (f : α → β) (as : List α) :
    Set.ofList ((Set.ofList as).toList.map f) = Set.ofList (as.map f) := by
  simpa only [List.map_eq_flatMap] using ofList_flatMap (fun a => [f a]) as

omit [DecidableEq α] in
/-- Where elements are left out by what they are, and their names are kept by what they are, the
names come in the same order if of each name that is kept the first element stays. -/
theorem ofList_map_filter (name : α → β) {stays : α → Bool} {kept : β → Bool} {as : List α}
    (hstays : ∀ a ∈ as, stays a = true → kept (name a) = true)
    (hfirst : ∀ a, as.find? (fun b => name b = name a) = some a → kept (name a) = true →
      stays a = true) :
    Set.ofList ((as.map name).filter kept) = Set.ofList ((as.filter stays).map name) := by
  induction as using List.reverseRecOn with
  | nil => rfl
  | append_singleton as a ih =>
    have hshorter := ih (fun b hb => hstays b (List.mem_append_left _ hb)) fun b hb => hfirst b
      (by rw [List.find?_append, hb, Option.some_or])
    rw [List.map_append, List.filter_append, List.filter_append, List.map_append]
    cases hkept : kept (name a) with
    | false =>
      have hleft : stays a = false := by
        rw [← Bool.not_eq_true]
        intro hstay
        rw [hstays a (by simp) hstay] at hkept
        cases hkept
      simpa [hkept, hleft] using hshorter
    | true =>
      cases hstay : stays a with
      | true =>
        have hboth : ∀ bs : List β, Set.ofList (bs ++ [name a]) = (Set.ofList bs).insert (name a) :=
          fun bs => Set.insertAll_append _ _ _
        simp only [List.map_cons, List.map_nil, List.filter_cons, hkept, hstay, if_true,
          List.filter_nil, hboth, hshorter]
      | false =>
        -- another element of this name came before, and so its name is there already
        have hearlier : name a ∈ as.map name := by
          by_contra hnone
          have hfind : (as ++ [a]).find? (fun b => name b = name a) = some a := by
            have hbefore : as.find? (fun b => name b = name a) = none := by
              simpa using hnone
            simp [List.find?_append, hbefore]
          rw [hfirst a hfind hkept] at hstay
          cases hstay
        have hsame : (Set.ofList ((as.map name).filter kept ++ [name a]))
            = Set.ofList ((as.map name).filter kept) := by
          refine (Set.insertAll_append _ _ _).trans (insertAll_of_subset fun b hb => ?_)
          obtain rfl := List.mem_singleton.mp hb
          exact Set.mem_ofList.mpr (List.mem_filter.mpr ⟨hearlier, hkept⟩)
        simpa [hkept, hstay, hshorter] using hsame

end Ambient.Ordered.Set

namespace Ambient.Ordered

variable {α β : Type} [DecidableEq α]

/-! ## Order of first appearance -/

/-- A list has the elements of another in the order in which they first appear there. -/
structure InOrder (list all : List α) : Prop where
  nodup : list.Nodup
  mem_iff : ∀ a, a ∈ list ↔ a ∈ all
  ordered : list.Pairwise fun a b => all.idxOf a < all.idxOf b

namespace InOrder

variable {list other all : List α} {a : α}

/-- Only one list has the elements of another in this order. -/
theorem unique (h : InOrder list all) (h' : InOrder other all) : list = other := by
  have hperm : list.Perm other :=
    (List.perm_ext_iff_of_nodup h.nodup h'.nodup).mpr fun a => (h.mem_iff a).trans (h'.mem_iff a).symm
  refine hperm.eq_of_pairwise (fun a b _ _ hab hba => ?_) h.ordered h'.ordered
  exact absurd (Nat.lt_trans hab hba) (Nat.lt_irrefl _)

/-- An element that appears once more is not listed again. -/
theorem concat_of_mem (h : InOrder list all) (ha : a ∈ all) : InOrder list (all ++ [a]) where
  nodup := h.nodup
  mem_iff b := by
    rw [h.mem_iff, List.mem_append, List.mem_singleton, or_iff_left_of_imp]
    rintro rfl
    exact ha
  ordered := by
    refine h.ordered.imp_of_mem fun {b c} hb hc hbc => ?_
    rwa [List.idxOf_append_of_mem ((h.mem_iff b).mp hb),
      List.idxOf_append_of_mem ((h.mem_iff c).mp hc)]

/-- A new element comes last. -/
theorem concat_of_not_mem (h : InOrder list all) (ha : a ∉ all) :
    InOrder (list ++ [a]) (all ++ [a]) where
  nodup := by
    rw [← h.mem_iff] at ha
    simpa [List.nodup_append, h.nodup] using fun b hb (hba : b = a) => ha (hba ▸ hb)
  mem_iff b := by rw [List.mem_append, List.mem_append, h.mem_iff]
  ordered := by
    refine List.pairwise_append.mpr ⟨?_, List.pairwise_singleton _ a, fun b hb c hc => ?_⟩
    · refine h.ordered.imp_of_mem fun {b c} hb hc hbc => ?_
      rwa [List.idxOf_append_of_mem ((h.mem_iff b).mp hb),
        List.idxOf_append_of_mem ((h.mem_iff c).mp hc)]
    · obtain rfl := List.mem_singleton.mp hc
      have hmem := (h.mem_iff b).mp hb
      have hnew : (all ++ [c]).idxOf c = all.length := by
        rw [List.idxOf_append_of_notMem ha, List.idxOf_cons_self, Nat.add_zero]
      rw [List.idxOf_append_of_mem hmem, hnew]
      exact List.idxOf_lt_length_of_mem hmem

end InOrder

/-! ### Sets -/

namespace Set

/-- A set is the union of sets, with its elements in the order in which these have them. -/
def IsUnion (s : Set α) (sets : List (Set α)) : Prop := InOrder s.toList (sets.flatMap toList)

omit [DecidableEq α] in
/-- A set is determined by its elements in their order. -/
theorem toList_injective {s t : Set α} (h : s.toList = t.toList) : s = t := by
  obtain ⟨list, _⟩ := s
  obtain ⟨other, _⟩ := t
  obtain rfl : list = other := h
  rfl

/-- The elements of a list that are added one by one are kept in the order of first appearance. -/
theorem inOrder_ofList (as : List α) : InOrder (ofList as).toList as := by
  induction as using List.reverseRecOn with
  | nil => exact ⟨List.nodup_nil, fun _ => Iff.rfl, .nil⟩
  | append_singleton as a ih =>
    have hstep : ofList (as ++ [a]) = (ofList as).insert a := insertAll_append _ _ _
    rw [hstep, toList_insert]
    split
    · next h => exact ih.concat_of_mem (mem_ofList.mp h)
    · next h => exact ih.concat_of_not_mem fun ha => h (mem_ofList.mpr ha)

/-- A set is made again from its elements. -/
theorem ofList_toList (s : Set α) : ofList s.toList = s :=
  toList_injective (toList_ofList_eq_iff.mpr s.distinct)

/-- Elements that appear once each are in the order of their appearance. -/
theorem inOrder_of_nodup {as : List α} (h : as.Nodup) : InOrder as as := by
  have hsame := inOrder_ofList as
  rwa [toList_ofList_eq_iff.mpr h] at hsame

/-- Sets are united in any grouping alike. -/
theorem union_assoc (s t u : Set α) : (s.union t).union u = s.union (t.union u) :=
  (insertAll_toList s t u.toList).symm

/-- Sets that are united one after the other give what their elements give in a row. -/
theorem foldl_union (sets : List (Set α)) (s : Set α) :
    sets.foldl union s = ofList ((s :: sets).flatMap toList) := by
  induction sets generalizing s with
  | nil => rw [List.flatMap_singleton, ofList_toList, List.foldl_nil]
  | cons t rest ih =>
    have hboth : ofList (s.toList ++ t.toList) = s.union t := by
      rw [ofList, insertAll_append, ← ofList, ofList_toList, union]
    have hrow : (s :: t :: rest).flatMap toList
        = (s.toList ++ t.toList) ++ rest.flatMap toList := by
      simp only [List.flatMap_cons, List.append_assoc]
    rw [List.foldl_cons, ih, hrow, List.flatMap_cons, ofList, ofList, insertAll_append,
      insertAll_append, ← ofList, ← ofList, hboth, ofList_toList]

/-- The union of sets is what uniting them one after the other gives, and nothing else. -/
theorem isUnion_iff {s : Set α} {t : Set α} {sets : List (Set α)} :
    s.IsUnion (t :: sets) ↔ s = sets.foldl union t := by
  rw [foldl_union]
  constructor
  · exact fun h => toList_injective (h.unique (inOrder_ofList _))
  · rintro rfl
    exact inOrder_ofList _

end Set

/-! ### Maps -/

namespace Map

/-- A map is the union of maps: it has their keys in the order in which these have them, each with
the value that it has in the first map that has it. -/
structure IsUnion (m : Map α β) (maps : List (Map α β)) : Prop where
  keys : InOrder m.keys (maps.flatMap Map.keys)
  get? : ∀ key, m.get? key = maps.findSome? fun one => one.get? key

variable {m n : Map α β}

/-- Maps with the same keys in the same order, and the same values for them, are the same. -/
theorem eq_of_keys (hkeys : m.keys = n.keys) (hget : ∀ key, m.get? key = n.get? key) : m = n := by
  have hentries : m.entries = n.entries := by
    have hlength : m.entries.length = n.entries.length := by
      simpa [Map.keys] using congrArg List.length hkeys
    refine List.ext_getElem hlength fun i hi hi' => ?_
    have hfirst : (m.entries[i]).1 = (n.entries[i]).1 := by
      have hat := congrArg (fun list => list[i]?) hkeys
      simpa [Map.keys, List.getElem?_eq_getElem hi, List.getElem?_eq_getElem hi'] using hat
    have hm : m.get? (m.entries[i]).1 = some (m.entries[i]).2 :=
      get?_eq_some_iff.mpr (List.getElem_mem hi)
    have hn : n.get? (n.entries[i]).1 = some (n.entries[i]).2 :=
      get?_eq_some_iff.mpr (List.getElem_mem hi')
    rw [hget, hfirst, hn] at hm
    exact Prod.ext hfirst (Option.some.inj hm).symm
  obtain ⟨entries, _⟩ := m
  obtain ⟨others, _⟩ := n
  obtain rfl : entries = others := hentries
  rfl

/-- The keys of a map as a set. -/
def keySet (m : Map α β) : Set α := ⟨m.keys, m.distinct⟩

/-- A new entry adds its key to the keys, if it is new there. -/
theorem keySet_insertNew (m : Map α β) (key : α) (value : β) :
    (m.insertNew key value).keySet = m.keySet.insert key := by
  refine Set.toList_injective ?_
  rw [Set.toList_insert]
  show ((m.insertNew key value).entries).map Prod.fst = if key ∈ m.keys then m.keys else _
  rw [entries_insertNew]
  split
  · rfl
  · exact List.map_append

/-- New entries add their keys to the keys, one after another. -/
theorem keySet_insertAllNew (m : Map α β) (entries : List (α × β)) :
    (m.insertAllNew entries).keySet = m.keySet.insertAll (entries.map Prod.fst) := by
  induction entries generalizing m with
  | nil => rfl
  | cons entry rest ih =>
    rw [insertAllNew, List.foldl_cons, ← insertAllNew, ih, keySet_insertNew]
    rfl

/-- The keys of a union are the union of the keys. -/
theorem keySet_union (m n : Map α β) : (m.union n).keySet = m.keySet.union n.keySet :=
  keySet_insertAllNew m n.entries

/-- Maps are united in any grouping alike. -/
theorem union_assoc (m n o : Map α β) : (m.union n).union o = m.union (n.union o) := by
  refine eq_of_keys ?_ fun key => ?_
  · have hkeys : ((m.union n).union o).keySet = (m.union (n.union o)).keySet := by
      simp only [keySet_union, Set.union_assoc]
    exact congrArg Set.toList hkeys
  · simp only [get?_union, Option.or_assoc]

/-- The keys of a union of maps are the union of their keys. -/
theorem keySet_foldl_union (maps : List (Map α β)) (m : Map α β) :
    (maps.foldl union m).keySet = (maps.map keySet).foldl Set.union m.keySet := by
  induction maps generalizing m with
  | nil => rfl
  | cons n rest ih => rw [List.foldl_cons, ih, keySet_union, List.map_cons, List.foldl_cons]

/-- The entries of several lists give a key the first value that one of the lists has for it. -/
theorem lookup_flatMap {γ : Type} (entries : γ → List (α × β)) (list : List γ) (key : α) :
    (list.flatMap entries).lookup key = list.findSome? fun one => (entries one).lookup key := by
  induction list with
  | nil => rfl
  | cons one rest ih =>
    rw [List.flatMap_cons, List.lookup_append, ih, List.findSome?_cons]
    cases (entries one).lookup key <;> rfl

/-- In maps that are united one after the other, the first one that has a key gives its value. -/
theorem get?_foldl_union (maps : List (Map α β)) (m : Map α β) (key : α) :
    (maps.foldl union m).get? key = (m :: maps).findSome? fun one => one.get? key := by
  induction maps generalizing m with
  | nil => cases h : m.get? key <;> simp [h]
  | cons n rest ih =>
    rw [List.foldl_cons, ih, List.findSome?_cons, get?_union, List.findSome?_cons,
      List.findSome?_cons]
    cases m.get? key <;> simp

/-- The union of maps is what uniting them one after the other gives, and nothing else. -/
theorem isUnion_iff {maps : List (Map α β)} : m.IsUnion (n :: maps) ↔ m = maps.foldl union n := by
  have hkeys : (maps.foldl union n).keySet.IsUnion ((n :: maps).map keySet) := by
    rw [List.map_cons, Set.isUnion_iff, keySet_foldl_union]
  rw [Set.IsUnion, List.flatMap_map] at hkeys
  constructor
  · intro h
    exact eq_of_keys (h.keys.unique hkeys) fun key =>
      (h.get? key).trans (get?_foldl_union maps n key).symm
  · rintro rfl
    exact ⟨hkeys, get?_foldl_union maps n⟩

end Map

end Ambient.Ordered
