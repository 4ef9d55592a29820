import Ambient.Link.Arena
import Mathlib.Data.List.Chain
import Mathlib.Data.List.Nodup
import Mathlib.Data.List.Perm.Subperm
import Mathlib.Data.List.TakeWhile
import Mathlib.Logic.Relation

/-!
# Climbing to a root

Links may be set to anything: to a number without an entry, to the entry itself, around in a circle.
A climb follows them to the first root without a bound. It never meets an entry twice, because from
the second time on it would go as it went from the first, and so there are fewer entries below the
root than in the arena. The bounded walk therefore meets a root whenever one can be reached.
-/

namespace Ambient.Arena

/-- The part of a path that an entry with this name adds: nothing without a name. -/
def segments (name : Option String) : List String := (name.filter fun n => !n.isEmpty).toList

variable {a : Arena} {id : Nat} {below : List (Nat × Entry)}

/-! ## The bounded walk -/

/-- A walk upwards takes no more steps than it is allowed. -/
theorem length_walk_le (a : Arena) (steps : Nat) (start : Option Nat) :
    (a.walk steps start).length ≤ steps := by
  induction steps generalizing start with
  | zero => simp [walk]
  | succ steps ih =>
    cases start with
    | none => simp [walk]
    | some id =>
      rw [walk]
      split
      · exact Nat.succ_le_succ (ih _)
      · exact Nat.zero_le _

/-- A walk begins where it is started. -/
theorem mem_head?_walk {steps : Nat} {start : Option Nat} {first : Nat × Entry}
    (h : first ∈ (a.walk steps start).head?) : start = some first.1 := by
  cases steps with
  | zero => simp [walk] at h
  | succ steps =>
    cases start with
    | none => simp [walk] at h
    | some id =>
      rw [walk] at h
      split at h
      · exact congrArg some (congrArg Prod.fst (Option.some.inj h))
      · simp at h

/-- A walk upwards comes by entries of the arena. -/
theorem get?_of_mem_walk {steps : Nat} {start : Option Nat} {step : Nat × Entry}
    (h : step ∈ a.walk steps start) : a.get? step.1 = some step.2 := by
  induction steps generalizing start with
  | zero => simp [walk] at h
  | succ steps ih =>
    cases start with
    | none => simp [walk] at h
    | some id =>
      rw [walk] at h
      split at h
      · next entry hget =>
        obtain rfl | hrest := List.mem_cons.mp h
        · exact hget
        · exact ih hrest
      · simp at h

/-- A walk goes from an entry to its parent. -/
theorem isChain_walk (a : Arena) (steps : Nat) (start : Option Nat) :
    (a.walk steps start).IsChain fun step next => step.2.parent = some next.1 := by
  induction steps generalizing start with
  | zero => simp [walk]
  | succ steps ih =>
    cases start with
    | none => simp [walk]
    | some id =>
      rw [walk]
      split
      · next entry hget =>
        exact List.isChain_cons.mpr ⟨fun next hnext => mem_head?_walk hnext, ih entry.parent⟩
      · exact .nil

/-! ## Climbs -/

/-- A number has another for its parent. -/
def IsChildOf (a : Arena) (id owner : Nat) : Prop := a.parent? id = some owner

/-- From a number a root can be reached by following the links. -/
def ReachesRoot (a : Arena) (id : Nat) : Prop :=
  ∃ top entry, Relation.ReflTransGen a.IsChildOf id top ∧ a.get? top = some entry ∧
    entry.kind = .root

/-- The entries met from a number upwards, before the first root. -/
inductive Climb (a : Arena) : Nat → List (Nat × Entry) → Prop
  | root {id : Nat} {entry : Entry} :
      a.get? id = some entry → entry.kind = .root → Climb a id []
  | child {id owner : Nat} {entry : Entry} {below : List (Nat × Entry)} :
      a.get? id = some entry → entry.kind ≠ .root → entry.parent = some owner →
      Climb a owner below → Climb a id ((id, entry) :: below)

/-- The names of entries met upwards, from the outermost one down and without empty ones. -/
def namesDown (below : List (Nat × Entry)) : List String :=
  below.reverse.flatMap fun step => segments step.2.name

namespace Climb

/-- A climb to the root comes by no other root. -/
theorem kind_ne_root (h : a.Climb id below) : ∀ step ∈ below, step.2.kind ≠ .root := by
  induction h with
  | root => simp
  | child _ hkind _ _ ih => exact List.forall_mem_cons.mpr ⟨hkind, ih⟩

/-- There is one climb from a number. -/
theorem unique {other : List (Nat × Entry)} (h : a.Climb id below) (hother : a.Climb id other) :
    below = other := by
  induction h generalizing other with
  | root hget hkind =>
    cases hother with
    | root => rfl
    | child hsame hnot =>
      obtain rfl := Option.some.inj (hget.symm.trans hsame)
      exact absurd hkind hnot
  | child hget hkind hparent _ ih =>
    cases hother with
    | root hsame hroot =>
      obtain rfl := Option.some.inj (hget.symm.trans hsame)
      exact absurd hroot hkind
    | child hsame _ howner hrest =>
      obtain rfl := Option.some.inj (hget.symm.trans hsame)
      obtain rfl := Option.some.inj (hparent.symm.trans howner)
      rw [ih hrest]

/-- From every entry that is met, the climb goes on with what comes from there. -/
theorem exists_suffix (h : a.Climb id below) {step : Nat × Entry} (hstep : step ∈ below) :
    ∃ rest, a.Climb step.1 rest ∧ rest <:+ below := by
  induction h with
  | root => simp at hstep
  | @child id owner entry below hget hkind hparent hclimb ih =>
    obtain rfl | hstep := List.mem_cons.mp hstep
    · exact ⟨_, .child hget hkind hparent hclimb, List.suffix_rfl⟩
    · obtain ⟨rest, hrest, hsuffix⟩ := ih hstep
      exact ⟨rest, hrest, hsuffix.trans (List.suffix_cons _ _)⟩

/-- A climb never meets a number twice. -/
theorem nodup (h : a.Climb id below) : (below.map Prod.fst).Nodup := by
  induction h with
  | root => exact List.nodup_nil
  | @child id owner entry below hget hkind hparent hclimb ih =>
    refine List.nodup_cons.mpr ⟨fun hmem => ?_, ih⟩
    obtain ⟨step, hstep, rfl⟩ := List.mem_map.mp hmem
    obtain ⟨rest, hrest, hsuffix⟩ := hclimb.exists_suffix hstep
    -- The climb from the number that comes again would be longer than itself.
    have hlength := hsuffix.length_le
    rw [hrest.unique (.child hget hkind hparent hclimb), List.length_cons] at hlength
    exact Nat.not_succ_le_self _ hlength

/-- A climb comes by entries of the arena. -/
theorem get?_of_mem (h : a.Climb id below) {step : Nat × Entry} (hstep : step ∈ below) :
    a.get? step.1 = some step.2 := by
  induction h with
  | root => simp at hstep
  | child hget _ _ _ ih =>
    obtain rfl | hstep := List.mem_cons.mp hstep
    · exact hget
    · exact ih hstep

/-- A climb ends at a root. -/
theorem reachesRoot (h : a.Climb id below) : a.ReachesRoot id := by
  induction h with
  | root hget hkind => exact ⟨_, _, .refl, hget, hkind⟩
  | @child id owner entry below hget _ hparent _ ih =>
    obtain ⟨top, root, hreach, htop⟩ := ih
    have hlink : a.IsChildOf id owner := by
      rw [IsChildOf, parent?, hget]
      exact hparent
    exact ⟨top, root, .head hlink hreach, htop⟩

/-- There are fewer entries below the root than in the arena: they are different ones, and the root
is none of them. -/
theorem length_lt_size (h : a.Climb id below) : below.length < a.size := by
  obtain ⟨top, entry, -, htop, hroot⟩ := h.reachesRoot
  have hlt {number : Nat} {entry : Entry} (hget : a.get? number = some entry) : number < a.size :=
    (Array.getElem?_eq_some_iff.mp hget).1
  have htop_not_mem : top ∉ below.map Prod.fst := fun hmem => by
    obtain ⟨step, hstep, rfl⟩ := List.mem_map.mp hmem
    obtain rfl := Option.some.inj ((h.get?_of_mem hstep).symm.trans htop)
    exact h.kind_ne_root step hstep hroot
  have hnumbers : top :: below.map Prod.fst ⊆ List.range a.size := by
    intro number hnumber
    rw [List.mem_range]
    obtain rfl | hnumber := List.mem_cons.mp hnumber
    · exact hlt htop
    · obtain ⟨step, hstep, rfl⟩ := List.mem_map.mp hnumber
      exact hlt (h.get?_of_mem hstep)
  have hlength := (List.subperm_of_subset (h.nodup.cons htop_not_mem) hnumbers).length_le
  rwa [List.length_cons, List.length_map, List.length_range] at hlength

/-- A walk with enough steps goes as the climb does, and on to the root. -/
theorem exists_walk_eq (h : a.Climb id below) {steps : Nat} (hsteps : below.length < steps) :
    ∃ root rest, a.walk steps (some id) = below ++ root :: rest ∧ root.2.kind = .root := by
  induction h generalizing steps with
  | @root id entry hget hkind =>
    obtain ⟨steps, rfl⟩ := Nat.exists_eq_succ_of_ne_zero (Nat.ne_zero_of_lt hsteps)
    refine ⟨(id, entry), a.walk steps entry.parent, ?_, hkind⟩
    simp only [walk, hget, List.nil_append]
  | @child id owner entry below hget hkind hparent _ ih =>
    obtain ⟨steps, rfl⟩ := Nat.exists_eq_succ_of_ne_zero (Nat.ne_zero_of_lt hsteps)
    obtain ⟨root, rest, hwalk, hroot⟩ := ih (Nat.lt_of_succ_lt_succ hsteps)
    refine ⟨root, rest, ?_, hroot⟩
    simp only [walk, hget, hparent, hwalk, List.cons_append]

end Climb

/-- What a walk meets before a root is a climb. -/
theorem climb_of_walk {steps : Nat} {root : Nat × Entry} {rest : List (Nat × Entry)}
    (h : a.walk steps (some id) = below ++ root :: rest)
    (hbelow : ∀ step ∈ below, step.2.kind ≠ .root) (hroot : root.2.kind = .root) :
    a.Climb id below := by
  induction below generalizing steps id with
  | nil =>
    have hhead : root ∈ (a.walk steps (some id)).head? := by
      rw [h]
      rfl
    obtain rfl := Option.some.inj (mem_head?_walk hhead)
    exact .root (get?_of_mem_walk (List.mem_of_mem_head? hhead)) hroot
  | cons step below ih =>
    cases steps with
    | zero => simp [walk] at h
    | succ steps =>
      rw [walk] at h
      split at h
      · next entry hget =>
        obtain ⟨rfl, hrest⟩ := List.cons.inj h
        obtain ⟨hkind, hbelow⟩ := List.forall_mem_cons.mp hbelow
        cases hparent : entry.parent with
        | none =>
          rw [hparent] at hrest
          cases steps <;> simp [walk] at hrest
        | some owner =>
          rw [hparent] at hrest
          exact .child hget hkind hparent (ih hrest hbelow)
      · simp at h

/-- There is a climb exactly from where a root can be reached. -/
theorem exists_climb_iff : (∃ below, a.Climb id below) ↔ a.ReachesRoot id := by
  refine ⟨fun ⟨below, h⟩ => h.reachesRoot, ?_⟩
  rintro ⟨top, entry, hreach, hget, hkind⟩
  induction hreach using Relation.ReflTransGen.head_induction_on with
  | refl => exact ⟨[], .root hget hkind⟩
  | @head id owner hlink _ ih =>
    obtain ⟨below, hclimb⟩ := ih
    cases hentry : a.get? id with
    | none => simp [IsChildOf, parent?, hentry] at hlink
    | some entry =>
      rw [IsChildOf, parent?, hentry] at hlink
      by_cases hroot : entry.kind = .root
      · exact ⟨[], .root hentry hroot⟩
      · exact ⟨_, .child hentry hroot hlink hclimb⟩

/-! ## Dotted names -/

/-- Along a climb the dotted name joins the names from the outermost entry down. -/
theorem Climb.fqn_eq (h : a.Climb id below) :
    a.fqn id = .ok (".".intercalate (namesDown below)) := by
  obtain ⟨root, rest, hwalk, hroot⟩ := h.exists_walk_eq h.length_lt_size
  have hbelow : (a.ancestors id).takeWhile (fun step => step.2.kind ≠ .root) = below := by
    rw [ancestors, hwalk, List.takeWhile_append_of_pos (by simpa using h.kind_ne_root),
      List.takeWhile_cons_of_neg (by simp [hroot]), List.append_nil]
  have hlength : below.length ≠ (a.ancestors id).length := by
    rw [ancestors, hwalk, List.length_append, List.length_cons]
    omega
  unfold fqn
  simp only [hbelow]
  rw [if_neg hlength, List.filterMap_eq_flatMap_toList]
  rfl

/-- A dotted name is read only along a climb. -/
theorem exists_climb_of_fqn {name : String} (h : a.fqn id = .ok name) :
    ∃ below, a.Climb id below := by
  unfold fqn at h
  simp only at h
  split at h
  · cases h
  · next hlength =>
    have hsplit := List.takeWhile_append_dropWhile (p := fun step => step.2.kind ≠ .root)
      (l := a.ancestors id)
    cases hrest : (a.ancestors id).dropWhile fun step => step.2.kind ≠ .root with
    | nil =>
      rw [hrest, List.append_nil] at hsplit
      exact absurd (congrArg List.length hsplit) hlength
    | cons root rest =>
      rw [hrest] at hsplit
      have hne : (a.ancestors id).dropWhile (fun step => step.2.kind ≠ .root) ≠ [] := by
        rw [hrest]
        exact List.cons_ne_nil _ _
      have hroot := List.head_dropWhile_not _ hne
      simp only [hrest, List.head_cons, decide_eq_false_iff_not, not_not] at hroot
      exact ⟨_, climb_of_walk hsplit.symm
        (fun step hstep => by simpa using List.mem_takeWhile_imp hstep) hroot⟩

/-- The name read off for a number is that of the climb from there, and none is read off without a
climb. -/
theorem fqn_eq_ok_iff {name : String} :
    a.fqn id = .ok name ↔ ∃ below, a.Climb id below ∧ name = ".".intercalate (namesDown below) := by
  constructor
  · intro h
    obtain ⟨below, hclimb⟩ := exists_climb_of_fqn h
    exact ⟨below, hclimb, Except.ok.inj (h.symm.trans hclimb.fqn_eq)⟩
  · rintro ⟨below, hclimb, rfl⟩
    exact hclimb.fqn_eq

/-- However links have been set, the walk upwards meets at most as many entries as there are, each
the parent of the one before it, and the bound on it cuts no way to a root: an entry has a dotted
name exactly if a root can be reached from it, and the name joins, from the outermost one down, the
names met before the first root. -/
theorem fqn_isOk_iff_reachesRoot (a : Arena) (id : Nat) :
    (a.ancestors id).length ≤ a.size ∧
      (∀ first ∈ (a.ancestors id).head?, first.1 = id) ∧
      (∀ step ∈ a.ancestors id, a.get? step.1 = some step.2) ∧
      (a.ancestors id).IsChain (fun step next => step.2.parent = some next.1) ∧
      ((∃ name, a.fqn id = .ok name) ↔ a.ReachesRoot id) ∧
      ∀ name, a.fqn id = .ok name ↔
        ∃ below, a.Climb id below ∧ name = ".".intercalate (namesDown below) := by
  refine ⟨length_walk_le a a.size (some id), fun first hfirst => ?_, fun step => get?_of_mem_walk,
    isChain_walk a a.size (some id), ?_, fun name => fqn_eq_ok_iff⟩
  · exact (Option.some.inj (mem_head?_walk hfirst)).symm
  · rw [← exists_climb_iff]
    exact ⟨fun ⟨_, h⟩ => exists_climb_of_fqn h, fun ⟨_, h⟩ => ⟨_, h.fqn_eq⟩⟩

/-- Two namespaces that are each below the other, a root that is below itself, a class below it in a
namespace without a name, and an interface below a number without an entry. -/
def tangled : Arena :=
  let entered := ((((((empty.alloc .nameSpace (some "a")).alloc .nameSpace (some "b")).alloc
    .root none).alloc .nameSpace (some "")).alloc .classType (some "C")).alloc
    .interfaceType (some "I"))
  (((((entered.setParent 0 1).setParent 1 0).setParent 2 2).setParent 3 2).setParent 4 3).setParent
    5 9

/-- Names are read off below a root, and neither in a circle nor below a number without an
entry. -/
theorem fqn_isOk_iff_reachesRoot_tangled :
    (tangled.fqn 4 = .ok "C" ∧ tangled.ReachesRoot 4 ∧ ¬ tangled.ReachesRoot 0 ∧
      ¬ tangled.ReachesRoot 5) ∧
      ((0, ⟨.nameSpace, some "a", some 1⟩) ∈ (tangled.ancestors 0).head? ∧
        (1, ⟨.nameSpace, some "b", some 0⟩) ∈ tangled.ancestors 0 ∧
        tangled.get? 1 = some ⟨.nameSpace, some "b", some 0⟩) := by
  obtain ⟨-, -, hget, -, hcircle, -⟩ := fqn_isOk_iff_reachesRoot tangled 0
  obtain ⟨-, -, -, -, hnamed, hname⟩ := fqn_isOk_iff_reachesRoot tangled 4
  obtain ⟨-, -, -, -, hdangling, -⟩ := fqn_isOk_iff_reachesRoot tangled 5
  have hread : tangled.fqn 4 = .ok "C" :=
    (hname "C").mpr ⟨[(4, ⟨.classType, some "C", some 3⟩), (3, ⟨.nameSpace, some "", some 2⟩)],
      .child rfl (by decide) rfl (.child rfl (by decide) rfl (.root rfl rfl)), by decide⟩
  have hlost {id : Nat} (h : tangled.fqn id = .error (.brokenChain id)) :
      ¬ ∃ name, tangled.fqn id = .ok name := fun ⟨_, hok⟩ => by
    rw [h] at hok
    cases hok
  have hmet : (1, ⟨.nameSpace, some "b", some 0⟩) ∈ tangled.ancestors 0 := by decide
  exact ⟨⟨hread, hnamed.mp ⟨_, hread⟩, fun h => hlost (by decide) (hcircle.mpr h),
    fun h => hlost (by decide) (hdangling.mpr h)⟩, by decide, hmet, hget _ hmet⟩

end Ambient.Arena
